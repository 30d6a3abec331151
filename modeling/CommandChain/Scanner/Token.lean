import CommandChain.Scanner.Basic
import CommandChain.Scanner.Numeral
import CommandChain.Value.Basic

/-!
# Tokens and sequences

Readers of the tokens that every grammar shares. A reader is a `Scan`: it leaves
the scanner where it stopped, also when it fails. `skip` says whether blanks are
passed over first.

`Scan.commaSeparated` and `Scan.bracketed` read lists between brackets. Each
round of the loop starts further on in the text than the one before; a reader of
items that moved the cursor back would be refused.
-/

namespace CommandChain

/-- A reader of text. -/
abbrev Scan := EStateM Error Scanner

namespace Scan

/-- Fails at the cursor. -/
def fail {α : Type} (message : String) : Scan α := fun s => .error (s.error message) s

/-- The character at the cursor. -/
def peek (skip : Bool) : Scan (Option Char) := fun s =>
  let s := s.settled skip
  .ok s.rest.head? s

/-- The character at the cursor, consumed. -/
def next (skip : Bool) : Scan (Option Char) := fun s =>
  let s := s.settled skip
  .ok s.rest.head? (s.advance 1)

def skipBlanks : Scan Unit := fun s => .ok () s.skipBlanks

def atEnd (skip : Bool) : Scan Bool := return (← peek skip).isNone

/-- The longest of some words that a text begins with. -/
def longest (words : List String) (text : List Char) : Option String :=
  words.foldl (fun best w =>
    if w.isEmpty || !w.toList.isPrefixOf text then best
    else
      match best with
      | some b => if b.length ≤ w.length then some w else best
      | none => some w) none

/-- The longest word at the cursor. -/
def testAny (words : List String) (skip : Bool) : Scan (Option String) := fun s =>
  let s := s.settled skip
  .ok (longest words s.rest) s

/-- The longest word at the cursor, consumed. -/
def consumeAny (words : List String) (skip : Bool) : Scan (Option String) := fun s =>
  let s := s.settled skip
  match longest words s.rest with
  | some w => .ok (some w) (s.advance w.length)
  | none => .ok none s

/-- Whether `token` stood at the cursor; it is consumed then. -/
def accept (token : String) (skip : Bool) : Scan Bool := return (← consumeAny [token] skip).isSome

def expect (token : String) (skip : Bool) : Scan Unit := do
  if !(← accept token skip) then
    fail ("expected `" ++ token ++ "`")

/-- Fails unless nothing but blanks is left. -/
def expectEnd : Scan Unit := do
  if !(← atEnd true) then
    fail "unexpected trailing text"

/-- The text up to the closing quote and the number of characters through it. A
backslash makes the next character part of the text. -/
def closeQuote (quote : Char) : List Char → Option (List Char × Nat)
  | [] => none
  | ['\\'] => none
  | '\\' :: c :: rest => (closeQuote quote rest).map fun (text, n) => (c :: text, n + 2)
  | c :: rest =>
    if c = quote then some ([], 1)
    else (closeQuote quote rest).map fun (text, n) => (c :: text, n + 1)

/-- A quoted string. -/
def quoted : Scan String := fun s =>
  match s.rest with
  | [] => fail "expected quoted string" s
  | quote :: body =>
    if s.lexicon.quotes.contains quote then
      match closeQuote quote body with
      | some (text, n) => .ok (String.ofList text) (s.advance (n + 1))
      | none => fail "unterminated quoted string" s
    else fail "expected quoted string" s

/-- The characters up to a blank or a stop. A symbol among them is an error. -/
def unquoted (stops : List Char) : Scan String := fun s =>
  let ends := fun c => s.isBlank c || stops.contains c
  let text := s.rest.takeWhile fun c => !ends c && !s.lexicon.symbols.contains c
  let s' := s.advance text.length
  match s'.rest.head?.filter (!ends ·) with
  | some c => fail ("unexpected `" ++ c.toString ++ "`") s'
  | none => if text.isEmpty then fail "expected string" s' else .ok (String.ofList text) s'

/-- A quoted string, or an unquoted one if no quote stands at the cursor. -/
def string (stops : List Char) : Scan String := do
  match ← peek true with
  | some c => if (← get).lexicon.quotes.contains c then quoted else unquoted stops
  | none => unquoted stops

def atNumber : Scan Bool := fun s => .ok (Numeral.read s.rest).isSome s

def number : Scan Number := fun s =>
  match Numeral.read s.rest with
  | none => fail "expected number" s
  | some n =>
    let s := s.advance n.chars.length
    let invalid := fun reason =>
      fail ("invalid integer `" ++ String.ofList n.chars ++ "`: " ++ reason) s
    if n.fraction.isSome then .ok ⟨n.toFloat, none⟩ s
    else if Int64.maxValue.toInt < n.toInt then invalid "number too large to fit in target type"
    else if n.toInt < Int64.minValue.toInt then invalid "number too small to fit in target type"
    else .ok ⟨n.toFloat, some (.ofInt n.toInt)⟩ s

/-- The number at the cursor, or zero if none stands there. -/
def numberOrZero : Scan Float := do
  if ← atNumber then return (← number).value else return 0

/-- A number without a point. -/
def int : Scan Int64 := fun s =>
  match number s with
  | .ok n s' =>
    match n.integer with
    | some i => .ok i s'
    | none => fail "expected integer" s
  | .error e s' => .error e s'

/-- `a..b`, `..b`, `a..` or a single `a`. -/
def range : Scan IntRange := do
  let min ← if (← testAny [".."] false).isSome then pure none else some <$> int
  if ← accept ".." false then
    let max ← if ← atNumber then some <$> int else pure none
    if min.isNone && max.isNone then fail "range needs at least one bound"
    else return ⟨min, max⟩
  else return ⟨min, min⟩

/-- One of the lexicon's words for true and false. -/
def bool : Scan Bool := do
  let lexicon := (← get).lexicon
  match ← consumeAny (lexicon.trueWords ++ lexicon.falseWords) false with
  | some word => return lexicon.trueWords.contains word
  | none => fail "expected boolean"

/-- The characters at the cursor that satisfy `p`. -/
def takeWhile (p : Char → Bool) : Scan String := fun s =>
  .ok (String.ofList (s.rest.takeWhile p)) (s.skipWhile p)

/-! ## Sequences -/

section

variable {α : Type}

/-- The text of an error that no reader of this library runs into. -/
def stuck : String := "reader made no progress"

/-- One or more items between commas, through `close`. -/
def commaSeparated (item : Scan α) (close : String) (s : Scanner) :
    EStateM.Result Error Scanner (List α) :=
  match item s with
  | .error e s' => .error e s'
  | .ok a s₁ =>
    match accept "," true s₁ with
    | .error e s' => .error e s'
    | .ok false s₂ => (do expect close true; return [a] : Scan (List α)) s₂
    | .ok true s₂ =>
      if s₂.rest.length < s.rest.length then
        match commaSeparated item close s₂ with
        | .error e s' => .error e s'
        | .ok items s₃ => .ok (a :: items) s₃
      else .error (Fault.internal stuck) s₂
termination_by s.rest.length

/-- The items after an opening bracket, through `close`. -/
def itemsThrough (item : Scan α) (close : String) : Scan (List α) := do
  if ← accept close true then return [] else commaSeparated item close

/-- The items between two brackets. -/
def bracketed (openBracket close : String) (item : Scan α) : Scan (List α) := do
  expect openBracket true
  itemsThrough item close

/-- Runs a reader on the texts that are shorter than the one at `s`. -/
def beyond (s : Scanner) (read : (t : Scanner) → t.rest.length < s.rest.length →
    EStateM.Result Error Scanner α) : Scan α := fun t =>
  if h : t.rest.length < s.rest.length then read t h else .error (Fault.internal stuck) t

end

/-! ## Whole texts -/

/-- The result of reading a whole text. -/
def run {α : Type} (scan : Scan α) (lexicon : Lexicon) (text : String) : Except Error α :=
  match scan (.ofText lexicon text) with
  | .ok a _ => .ok a
  | .error e _ => .error e

end Scan

end CommandChain
