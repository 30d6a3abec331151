import CommandChain.Value.Basic

/-!
# Shapes of values

A `Shape` says which values an argument accepts: `matchesValue`.
-/

namespace CommandChain

/-- The values an argument accepts. -/
inductive Shape where
  | bool
  | int
  /-- An integer or a number with a fractional part. -/
  | number
  /-- A range or a single integer. -/
  | range
  | relative
  | text
  | oneOf (words : List String)
  | intOneOf (ints : List Int64)
  | union (shapes : List Shape)
  /-- A map whose values have the shape; entries may be inverted. -/
  | mapOf (value : Shape)
  /-- A map with some of these keys; entries may not be inverted. -/
  | record (fields : List (String × Shape))
  | listOf (item : Shape)
  | any
  deriving Inhabited

namespace Shape

mutual

def matchesValue : Shape → ArgValue → Bool
  | any, _ => true
  | bool, .bool _ => true
  | int, .int _ => true
  | number, .int _ => true
  | number, .float _ => true
  | range, .int _ => true
  | range, .range _ => true
  | relative, .relative _ => true
  | text, .text _ => true
  | oneOf words, .text s => words.contains s
  | intOneOf ints, .int n => ints.contains n
  | union shapes, value => matchesSome shapes value
  | mapOf shape, .map entries => entries.all fun e => shape.matchesValue e.value
  | record fields, .map entries =>
    entries.all fun e => !e.inverted && matchesField fields e.key e.value
  | listOf shape, .list items => items.all fun v => shape.matchesValue v
  | _, _ => false

def matchesSome : List Shape → ArgValue → Bool
  | [], _ => false
  | shape :: rest, value => shape.matchesValue value || matchesSome rest value

/-- A field of that name has a shape the value matches. -/
def matchesField : List (String × Shape) → String → ArgValue → Bool
  | [], _, _ => false
  | (name, shape) :: rest, key, value =>
    (name == key && shape.matchesValue value) || matchesField rest key value

end

mutual

protected def toString : Shape → String
  | bool => "bool"
  | int => "int"
  | number => "number"
  | range => "range"
  | relative => "relative"
  | text => "text"
  | oneOf words => "one of " ++ "|".intercalate words
  | intOneOf ints => "one of " ++ "|".intercalate (ints.map toString)
  | union shapes => " or ".intercalate (texts shapes)
  | mapOf value => "\x7btext=" ++ value.toString ++ "\x7d"
  | record fields => "\x7b" ++ ",".intercalate (fieldTexts fields) ++ "\x7d"
  | listOf item => "[" ++ item.toString ++ "]"
  | any => "any"

def texts : List Shape → List String
  | [] => []
  | shape :: rest => shape.toString :: texts rest

def fieldTexts : List (String × Shape) → List String
  | [] => []
  | (name, shape) :: rest => (name ++ "=" ++ shape.toString) :: fieldTexts rest

end

instance : ToString Shape := ⟨Shape.toString⟩

end Shape

end CommandChain
