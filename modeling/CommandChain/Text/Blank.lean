/-!
# Blank characters

`isBlank` is the Unicode property `White_Space`. `trim`, `firstWord` and
`afterLast` cut command text with it; they work on lists of characters, and
`trimmed` is `trim` on strings.
-/

namespace CommandChain.Text

/-- The characters with the Unicode property `White_Space`. -/
def blanks : List Char :=
  ['\t', '\n', '\x0b', '\x0c', '\r', ' ', '\x85', '\xa0', '\u1680', '\u2000', '\u2001', '\u2002',
    '\u2003', '\u2004', '\u2005', '\u2006', '\u2007', '\u2008', '\u2009', '\u200a', '\u2028',
    '\u2029', '\u202f', '\u205f', '\u3000']

def isBlank (c : Char) : Bool := blanks.contains c

def trimStart (s : List Char) : List Char := s.dropWhile isBlank

def trimEnd (s : List Char) : List Char := (s.reverse.dropWhile isBlank).reverse

/-- The text without the blanks at its two ends. -/
def trim (s : List Char) : List Char := trimEnd (trimStart s)

def trimmed (s : String) : String := String.ofList (trim s.toList)

/-- The first run of characters that are not blank. -/
def firstWord (s : List Char) : Option (List Char) :=
  match (trimStart s).takeWhile (!isBlank ·) with
  | [] => none
  | word => some word

/-- What follows the last occurrence of `mark`. -/
def afterLast (mark : List Char) : List Char → Option (List Char)
  | [] => if mark.isEmpty then some [] else none
  | c :: cs =>
    match afterLast mark cs with
    | some tail => some tail
    | none => if mark.isPrefixOf (c :: cs) then some ((c :: cs).drop mark.length) else none

/-- Every suffix that follows an occurrence of `mark`, first occurrence first. -/
def afterEach (mark : List Char) : List Char → List (List Char)
  | [] => if mark.isEmpty then [[]] else []
  | c :: cs =>
    if mark.isPrefixOf (c :: cs) then (c :: cs).drop mark.length :: afterEach mark cs
    else afterEach mark cs

/-- Length of the text in UTF-8. -/
def byteLength : List Char → Nat
  | [] => 0
  | c :: cs => c.utf8Size + byteLength cs

@[simp] theorem byteLength_append (a b : List Char) :
    byteLength (a ++ b) = byteLength a + byteLength b := by
  induction a with
  | nil => simp [byteLength]
  | cons c a ih => simp only [List.cons_append, byteLength, ih, Nat.add_assoc]

@[simp] theorem byteLength_reverse (a : List Char) : byteLength a.reverse = byteLength a := by
  induction a with
  | nil => rfl
  | cons c a ih => simp only [List.reverse_cons, byteLength_append, ih, byteLength]; omega

end CommandChain.Text
