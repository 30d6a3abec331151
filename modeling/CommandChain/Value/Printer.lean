import CommandChain.Value.Basic
import CommandChain.Number.Decimal
import CommandChain.Text.Blank

/-!
# Text of values

A string is written bare unless a reader would take the bare form for something
else (`needsQuotes`); inside quotes a backslash stands before `"` and `\`. A
number with a fractional part keeps a point even when it is whole, so that it
reads back as such.
-/

namespace CommandChain

protected def IntRange.toString (r : IntRange) : String :=
  (r.min.map toString).getD "" ++ ".." ++ (r.max.map toString).getD ""

instance : ToString IntRange := ⟨IntRange.toString⟩

namespace ArgValue

/-- Characters that a bare string does not hold. -/
def quoteTriggers : List Char :=
  [',', '=', '{', '}', '[', ']', '!', '"', '\'', '~', '^', '@', '\\']

/-- First characters of numbers. -/
def startsNumber (c : Char) : Bool := c.isDigit || c == '-' || c == '+' || c == '.'

def needsQuotes (s : List Char) : Bool :=
  s.isEmpty || s == ['t', 'r', 'u', 'e'] || s == ['f', 'a', 'l', 's', 'e'] ||
    s.head?.any startsNumber || s.any fun c => Text.isBlank c || quoteTriggers.contains c

/-- The text between the quotes. -/
def escape : List Char → List Char
  | [] => []
  | c :: cs => if c = '"' ∨ c = '\\' then '\\' :: c :: escape cs else c :: escape cs

/-- A string as a reader of values takes it. -/
def quoteText (s : String) : String :=
  if needsQuotes s.toList then String.ofList ('"' :: escape s.toList ++ ['"']) else s

/-- A number that keeps its point; without a fractional part it has one decimal
place below `10 ^ 15`. -/
def floatText (x : Float) : String :=
  String.ofList (if Number.isWhole x && x.abs < 1e15 then Number.fixed 1 x else Number.plain x)

mutual

protected def toString : ArgValue → String
  | bool b => toString b
  | int n => toString n
  | float x => floatText x
  | range r => toString r
  | relative offset => if offset == 0 then "~" else "~" ++ floatText offset
  | text s => quoteText s
  | map entries => "\x7b" ++ ",".intercalate (entryTexts entries) ++ "\x7d"
  | list items => "[" ++ ",".intercalate (itemTexts items) ++ "]"

def entryTexts : List (Entry ArgValue) → List String
  | [] => []
  | ⟨key, inverted, value⟩ :: rest =>
    (quoteText key ++ (if inverted then "=!" else "=") ++ value.toString) :: entryTexts rest

def itemTexts : List ArgValue → List String
  | [] => []
  | value :: rest => value.toString :: itemTexts rest

end

instance : ToString ArgValue := ⟨ArgValue.toString⟩

end ArgValue

protected def StateValue.toString : StateValue → String
  | bool b => toString b
  | int n => toString n
  | text s => "\"" ++ s ++ "\""

instance : ToString StateValue := ⟨StateValue.toString⟩

end CommandChain
