import CommandChain.Error
import CommandChain.Text.Blank

/-!
# Scanners

A `Scanner` is a text split at a cursor, together with the `Lexicon` of its
grammar. The cursor stands between characters; `position` counts it in bytes of
UTF-8. An error shows up to eight characters on either side of the cursor.
-/

namespace CommandChain

/-- The characters and words that a grammar treats specially. -/
structure Lexicon where
  /-- Skipped between tokens. -/
  whitespace : List Char
  /-- Open a quoted string, which the same character closes. -/
  quotes : List Char
  trueWords : List String
  falseWords : List String
  /-- Not allowed in unquoted strings. -/
  symbols : List Char
  deriving Repr

def Lexicon.ascii : Lexicon where
  whitespace := [' ', '\t', '\n', '\r']
  quotes := ['"']
  trueWords := ["true"]
  falseWords := ["false"]
  symbols := []

/-- A text with a cursor. -/
structure Scanner where
  lexicon : Lexicon
  /-- The text before the cursor, nearest character first. -/
  consumed : List Char
  /-- The text from the cursor on. -/
  rest : List Char
  deriving Repr

namespace Scanner

def ofText (lexicon : Lexicon) (text : String) : Scanner := ⟨lexicon, [], text.toList⟩

def source (s : Scanner) : List Char := s.consumed.reverse ++ s.rest

/-- Bytes before the cursor. -/
def position (s : Scanner) : Nat := Text.byteLength s.consumed

/-- Moves the cursor over `n` characters. -/
def advance (s : Scanner) (n : Nat) : Scanner :=
  { s with consumed := (s.rest.take n).reverse ++ s.consumed, rest := s.rest.drop n }

/-- The characters that fit into the first `offset` bytes. -/
def charsWithin : Nat → List Char → Nat
  | _, [] => 0
  | offset, c :: cs => if c.utf8Size ≤ offset then charsWithin (offset - c.utf8Size) cs + 1 else 0

/-- Puts the cursor at a byte offset. -/
def seek (s : Scanner) (offset : Nat) : Scanner :=
  { s with consumed := [], rest := s.source }.advance (charsWithin offset s.source)

def isBlank (s : Scanner) (c : Char) : Bool := s.lexicon.whitespace.contains c

/-- Moves the cursor over the characters at it that satisfy `p`. -/
def skipWhile (s : Scanner) (p : Char → Bool) : Scanner := s.advance (s.rest.takeWhile p).length

def skipBlanks (s : Scanner) : Scanner := s.skipWhile s.isBlank

/-- The scanner after the blanks at the cursor if `skip` is set. -/
def settled (s : Scanner) (skip : Bool) : Scanner := if skip then s.skipBlanks else s

/-- Characters of context on each side of the cursor in an error. -/
def window : Nat := 8

def error (s : Scanner) (message : String) : Error :=
  Fault.parse message s.position (String.ofList (s.consumed.take window).reverse)
    (String.ofList (s.rest.take window))

@[simp] theorem lexicon_advance (s : Scanner) (n : Nat) : (s.advance n).lexicon = s.lexicon := rfl

@[simp] theorem rest_advance (s : Scanner) (n : Nat) : (s.advance n).rest = s.rest.drop n := rfl

@[simp] theorem source_advance (s : Scanner) (n : Nat) : (s.advance n).source = s.source := by
  simp [source, advance]

@[simp] theorem rest_skipWhile (s : Scanner) (p : Char → Bool) :
    (s.skipWhile p).rest = s.rest.dropWhile p := by
  simp only [skipWhile, rest_advance]
  induction s.rest with
  | nil => rfl
  | cons c cs ih =>
    by_cases h : p c
    · simp [h, ih]
    · simp [h]

end Scanner

end CommandChain
