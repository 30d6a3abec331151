import CommandChain.Proofs.Scanner.Numeral
import CommandChain.Proofs.Text.Slice

/-!
# Scanners that count bytes

The cursor of a `ByteScanner` is an offset into its text. Nothing keeps it at a character
boundary: a reader adds the bytes of what it has passed, and puts the cursor back to an offset
it has noted. What a reader looks at is a slice of the text, and there is none from an offset
inside a character or beyond the end, where the reader halts (`Halt.badSlice`).

The readers here go through the text one character at a time. Those of `Scan` have the text
split at the cursor and take what they pass at once.
-/

namespace CommandChain

/-- A text with a cursor in bytes, which may stand anywhere. -/
structure ByteScanner where
  lexicon : Lexicon
  source : List Char
  position : Nat

/-- What ends a reader. -/
inductive Halt where
  | error (e : Error)
  /-- A slice at an offset that is no character boundary. -/
  | badSlice

namespace ByteScanner

/-- The text in front of the cursor and the text behind it. -/
def split? (s : ByteScanner) : Option (List Char × List Char) :=
  Text.splitAt? s.source s.position

/-- The text from an offset to the cursor. -/
def since? (s : ByteScanner) (start : Nat) : Option (List Char) := do
  if s.position < start then none else
  let (_, behind) ← Text.splitAt? s.source start
  let (text, _) ← Text.splitAt? behind (s.position - start)
  return text

/-- Moves the cursor, wherever that is. -/
def moved (s : ByteScanner) (bytes : Nat) : ByteScanner :=
  { s with position := s.position + bytes }

def seek (s : ByteScanner) (offset : Nat) : ByteScanner := { s with position := offset }

/-- Bytes behind the cursor. -/
def left (s : ByteScanner) : Nat := Text.byteLength s.source - s.position

theorem left_moved {s : ByteScanner} {before behind : List Char} {c : Char}
    (h : s.split? = some (before, c :: behind)) {bytes : Nat} (hbytes : 0 < bytes) :
    (s.moved bytes).left < s.left := by
  obtain ⟨hsource, hposition⟩ := Text.splitAt?_eq_some_iff.1 h
  have hpos := c.utf8Size_pos
  have hlength : Text.byteLength s.source = s.position + (c.utf8Size + Text.byteLength behind) := by
    rw [hsource, Text.byteLength_append, hposition, Text.byteLength]
  simp only [left, moved]
  omega

end ByteScanner

/-- A reader of text with a cursor in bytes. -/
abbrev ByteScan := EStateM Halt ByteScanner

namespace ByteScan

/-- A slice of the text. -/
def slice {α : Type} (slice? : ByteScanner → Option α) : ByteScan α := fun s =>
  match slice? s with
  | some a => .ok a s
  | none => .error .badSlice s

def before : ByteScan (List Char) := slice fun s => s.split?.map (·.1)

def rest : ByteScan (List Char) := slice fun s => s.split?.map (·.2)

def position : ByteScan Nat := return (← get).position

def rewind (offset : Nat) : ByteScan Unit := modify (·.seek offset)

def move (bytes : Nat) : ByteScan Unit := modify (·.moved bytes)

def lexicon : ByteScan Lexicon := return (← get).lexicon

/-- The error at the cursor. -/
def error (message : String) : ByteScan Error := do
  let before ← before
  let after := (← rest).take Scanner.window
  return Fault.parse message (← position)
    (String.ofList (before.drop (before.length - Scanner.window))) (String.ofList after)

def fail {α : Type} (message : String) : ByteScan α := do throw (.error (← error message))

/-- Moves the cursor over a character for as long as `body` says so, or fails with a message. -/
def scanLoop (body : Char → Except String Bool) (s : ByteScanner) :
    EStateM.Result Halt ByteScanner Unit :=
  match _h : s.split? with
  | none => .error .badSlice s
  | some (_, []) => .ok () s
  | some (_, c :: _) =>
    match body c with
    | .error message => fail message s
    | .ok true => scanLoop body (s.moved c.utf8Size)
    | .ok false => .ok () s
termination_by s.left
decreasing_by exact ByteScanner.left_moved _h c.utf8Size_pos

def scanWhile (body : Char → Except String Bool) : ByteScan Unit := fun s => scanLoop body s

def skipBlanks : ByteScan Unit := do
  let lexicon ← lexicon
  scanWhile fun c => .ok (lexicon.whitespace.contains c)

def settle (skip : Bool) : ByteScan Unit := if skip then skipBlanks else pure ()

def peek (skip : Bool) : ByteScan (Option Char) := do
  settle skip
  return (← rest).head?

def next (skip : Bool) : ByteScan (Option Char) := do
  match ← peek skip with
  | some c =>
    move c.utf8Size
    return some c
  | none => return none

def atEnd (skip : Bool) : ByteScan Bool := return (← peek skip).isNone

/-- The longest in bytes of some words that a text begins with. -/
def longest (words : List String) (text : List Char) : Option String :=
  words.foldl (fun best w =>
    if w.isEmpty || !w.toList.isPrefixOf text then best
    else
      match best with
      | some b => if Text.byteLength b.toList ≤ Text.byteLength w.toList then some w else best
      | none => some w) none

def testAny (words : List String) (skip : Bool) : ByteScan (Option String) := do
  settle skip
  return longest words (← rest)

def consumeAny (words : List String) (skip : Bool) : ByteScan (Option String) := do
  match ← testAny words skip with
  | some w =>
    move (Text.byteLength w.toList)
    return some w
  | none => return none

def accept (token : String) (skip : Bool) : ByteScan Bool :=
  return (← consumeAny [token] skip).isSome

def expect (token : String) (skip : Bool) : ByteScan Unit := do
  if ← accept token skip then return () else fail ("expected `" ++ token ++ "`")

def expectEnd : ByteScan Unit := do
  if ← atEnd true then return () else fail "unexpected trailing text"

/-- The text up to the closing quote, behind which the cursor is left. -/
def quoteLoop (quote : Char) (text : List Char) (s : ByteScanner) :
    EStateM.Result Halt ByteScanner (Option (List Char)) :=
  match _h : s.split? with
  | none => .error .badSlice s
  | some (_, []) => .ok none s
  | some (_, c :: _) =>
    let s' := s.moved c.utf8Size
    if c = '\\' then
      match _h' : s'.split? with
      | none => .error .badSlice s'
      | some (_, []) => .ok none s'
      | some (_, d :: _) => quoteLoop quote (text ++ [d]) (s'.moved d.utf8Size)
    else if c = quote then .ok (some text) s'
    else quoteLoop quote (text ++ [c]) s'
termination_by s.left
decreasing_by
  · exact (ByteScanner.left_moved _h' d.utf8Size_pos).trans
      (ByteScanner.left_moved _h c.utf8Size_pos)
  · exact ByteScanner.left_moved _h c.utf8Size_pos

def throughQuote (quote : Char) : ByteScan (Option (List Char)) := fun s => quoteLoop quote [] s

def quoted : ByteScan String := do
  match ← peek false with
  | some quote =>
    if (← lexicon).quotes.contains quote then
      let start ← position
      let _ ← next false
      match ← throughQuote quote with
      | some text => return String.ofList text
      | none =>
        rewind start
        fail "unterminated quoted string"
    else fail "expected quoted string"
  | none => fail "expected quoted string"

def unquoted (stops : List Char) : ByteScan String := do
  let start ← position
  let lexicon ← lexicon
  scanWhile fun c =>
    if lexicon.whitespace.contains c || stops.contains c then .ok false
    else if lexicon.symbols.contains c then .error ("unexpected `" ++ c.toString ++ "`")
    else .ok true
  if (← position) = start then fail "expected string"
  else return String.ofList (← slice (·.since? start))

def string (stops : List Char) : ByteScan String := do
  match ← peek true with
  | some c => if (← lexicon).quotes.contains c then quoted else unquoted stops
  | none => unquoted stops

/-- A digit, or a point and a digit, stands behind the sign. -/
def beginsNumber (text : List Char) : Bool :=
  match (Numeral.readSign text).2 with
  | [] => false
  | c :: rest => c.isDigit || (c = '.' && rest.head?.any Char.isDigit)

def atNumber : ByteScan Bool := return beginsNumber (← rest)

/-- Moves the cursor over digits, and over a point if there is none yet and a digit behind it;
whether there is one. -/
def digitsLoop (hasPoint : Bool) (s : ByteScanner) : EStateM.Result Halt ByteScanner Bool :=
  match _h : s.split? with
  | none => .error .badSlice s
  | some (_, []) => .ok hasPoint s
  | some (_, c :: rest) =>
    if c.isDigit then digitsLoop hasPoint (s.moved 1)
    else if c = '.' ∧ hasPoint = false then
      match Text.splitAt? (c :: rest) 1 with
      | none => .error .badSlice s
      | some (_, behind) =>
        if behind.head?.any Char.isDigit then digitsLoop true (s.moved 1) else .ok hasPoint s
    else .ok hasPoint s
termination_by s.left
decreasing_by
  · exact ByteScanner.left_moved _h Nat.one_pos
  · exact ByteScanner.left_moved _h Nat.one_pos

def digits : ByteScan Bool := fun s => digitsLoop false s

def passSign : ByteScan Unit := do
  if (← peek false).any fun c => c = '-' || c = '+' then move 1

/-- The value of a text. -/
def toNumber (text : List Char) (hasPoint : Bool) : ByteScan Number :=
  match Numeral.read text with
  | none => fail ("invalid number `" ++ String.ofList text ++ "`: invalid float literal")
  | some n =>
    let invalid := fun reason =>
      fail ("invalid integer `" ++ String.ofList text ++ "`: " ++ reason)
    if hasPoint then return ⟨n.toFloat, none⟩
    else if Int64.maxValue.toInt < n.toInt then invalid "number too large to fit in target type"
    else if n.toInt < Int64.minValue.toInt then invalid "number too small to fit in target type"
    else return ⟨n.toFloat, some (.ofInt n.toInt)⟩

def number : ByteScan Number := do
  if ← atNumber then
    let start ← position
    passSign
    let hasPoint ← digits
    toNumber (← slice (·.since? start)) hasPoint
  else fail "expected number"

def int : ByteScan Int64 := do
  let start ← position
  match (← number).integer with
  | some i => return i
  | none =>
    rewind start
    fail "expected integer"

/-- What is read behind the lower bound of a range. -/
def upper (min : Option Int64) : ByteScan IntRange := do
  if ← accept ".." false then
    let max ← if ← atNumber then some <$> int else pure none
    if min.isNone && max.isNone then fail "range needs at least one bound"
    else return ⟨min, max⟩
  else return ⟨min, min⟩

def range : ByteScan IntRange := do
  upper (← if (← testAny [".."] false).isSome then pure none else some <$> int)

def bool : ByteScan Bool := do
  let lexicon ← lexicon
  match ← consumeAny (lexicon.trueWords ++ lexicon.falseWords) false with
  | some word => return lexicon.trueWords.contains word
  | none => fail "expected boolean"

def takeWhile (p : Char → Bool) : ByteScan String := do
  let start ← position
  scanWhile fun c => .ok (p c)
  return String.ofList (← slice (·.since? start))

end ByteScan

end CommandChain
