import CommandChain.Collection.OrderedMap

/-!
# Values in selector and block text

`ArgValue` is the right-hand side of `key=value` in a selector, `StateValue` the
one of a block state. Equality (`==`) compares floats as numbers, so `0.0` and
`-0.0` are equal and NaN equals nothing.
-/

namespace CommandChain

/-- The whole numbers between two bounds, both included; `none` is unbounded. -/
structure IntRange where
  min : Option Int64
  max : Option Int64
  deriving DecidableEq, Repr, Inhabited

namespace IntRange

def exactly (n : Int64) : IntRange := ⟨some n, some n⟩

def contains (r : IntRange) (n : Int64) : Bool :=
  r.min.all (· ≤ n) && r.max.all (n ≤ ·)

end IntRange

/-- One `key=value`, or `key=!value` when inverted. -/
structure Entry (α : Type) where
  key : String
  inverted : Bool
  value : α
  deriving Repr

/-- The value of a selector argument. -/
inductive ArgValue where
  | bool (b : Bool)
  | int (n : Int64)
  /-- A number written with a fractional part. -/
  | float (x : Float)
  | range (r : IntRange)
  /-- `~` and an offset. -/
  | relative (offset : Float)
  | text (s : String)
  | map (entries : List (Entry ArgValue))
  | list (items : List ArgValue)
  deriving Inhabited

namespace ArgValue

def kind : ArgValue → String
  | bool _ => "bool"
  | int _ => "int"
  | float _ => "float"
  | range _ => "range"
  | relative _ => "relative"
  | text _ => "text"
  | map _ => "map"
  | list _ => "list"

def number? : ArgValue → Option Float
  | int n => some (Float.ofInt n.toInt)
  | float x => some x
  | _ => none

def int? : ArgValue → Option Int64
  | int n => some n
  | _ => none

def text? : ArgValue → Option String
  | text s => some s
  | _ => none

/-- An integer counts as the range of itself. -/
def range? : ArgValue → Option IntRange
  | int n => some (.exactly n)
  | range r => some r
  | _ => none

mutual

protected def beq : ArgValue → ArgValue → Bool
  | bool a, bool b => a == b
  | int a, int b => a == b
  | float a, float b => a == b
  | range a, range b => a == b
  | relative a, relative b => a == b
  | text a, text b => a == b
  | map a, map b => beqEntries a b
  | list a, list b => beqItems a b
  | _, _ => false

def beqEntries : List (Entry ArgValue) → List (Entry ArgValue) → Bool
  | [], [] => true
  | ⟨k, i, v⟩ :: a, ⟨k', i', v'⟩ :: b => k == k' && i == i' && v.beq v' && beqEntries a b
  | _, _ => false

def beqItems : List ArgValue → List ArgValue → Bool
  | [], [] => true
  | v :: a, v' :: b => v.beq v' && beqItems a b
  | _, _ => false

end

instance : BEq ArgValue := ⟨ArgValue.beq⟩

end ArgValue

/-- The value of a block state. -/
inductive StateValue where
  | bool (b : Bool)
  | int (n : Int64)
  | text (s : String)
  deriving DecidableEq, Repr

end CommandChain
