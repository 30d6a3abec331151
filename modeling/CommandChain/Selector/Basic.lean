import CommandChain.Selector.Registry
import CommandChain.Value.Printer

/-!
# Selectors

A `Selector` is a selector type with its arguments, grouped by key; the
occurrences of a key stand in written order. Which entities it picks is a matter
of the world and the context.
-/

namespace CommandChain

/-- One occurrence of an argument. -/
structure Argument where
  inverted : Bool
  value : ArgValue
  deriving BEq

structure Selector where
  type : SelectorType
  arguments : OrderedMap String (List Argument)

namespace Selector

/-- The occurrences of an argument. -/
def get (s : Selector) (name : String) : List Argument := (s.arguments.get? name).getD []

def has (s : Selector) (name : String) : Bool := s.arguments.contains name

/-- The value of the first occurrence. -/
def first? (s : Selector) (name : String) : Option ArgValue := (s.get name).head?.map (·.value)

/-- The value of the first occurrence without `!`. -/
def positive? (s : Selector) (name : String) : Option ArgValue :=
  ((s.get name).find? (!·.inverted)).map (·.value)

/-- The values of the occurrences with `!`. -/
def inverted (s : Selector) (name : String) : List ArgValue :=
  ((s.get name).filter (·.inverted)).map (·.value)

/-- Every occurrence, in the order of the keys. -/
def occurrences (s : Selector) : List (Entry ArgValue) :=
  s.arguments.entries.flatMap fun (key, args) => args.map fun a => ⟨key, a.inverted, a.value⟩

/-- The `c` argument. -/
def count? (s : Selector) : Option Int64 := (s.first? "c").bind ArgValue.int?

/-- The number of results. -/
def limit? (s : Selector) : Option Nat :=
  match s.count? with
  | some c => some c.toInt.natAbs
  | none => s.type.limit

/-- As its text says, the selector picks at most one entity: by its count or, without
one, by the limit of its type. -/
def isSingle (s : Selector) : Bool :=
  match s.count? with
  | some c => c.toInt.natAbs == 1
  | none => s.type.limit == some 1

instance : BEq Selector :=
  ⟨fun a b => a.type == b.type && a.arguments.entries == b.arguments.entries⟩

/-- `key=value` or `key=!value`. -/
def occurrenceText (e : Entry ArgValue) : String :=
  e.key ++ (if e.inverted then "=!" else "=") ++ toString e.value

/-- The form with `@`. -/
def typedText (s : Selector) : String :=
  "@" ++ s.type.name ++
    if s.arguments.isEmpty then ""
    else "[" ++ ",".intercalate (s.occurrences.map occurrenceText) ++ "]"

protected def toString (s : Selector) : String :=
  if s.type.isName then
    match s.positive? "name" with
    | some name => toString name
    | none => s.typedText
  else s.typedText

instance : ToString Selector := ⟨Selector.toString⟩

end Selector

end CommandChain
