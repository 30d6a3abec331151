import CommandChain.Identifier
import CommandChain.Space.Vec3
import CommandChain.Value.Printer

/-!
# Blocks

A `Block` is a block type with state values; a `Site` is where one stands.
-/

namespace CommandChain

structure Block where
  /-- With namespace. -/
  id : String
  states : OrderedMap String StateValue

namespace Block

def ofId (id : String) : Block := ⟨qualify id, ∅⟩

def air : Block := ofId "air"

def withState (b : Block) (name : String) (value : StateValue) : Block :=
  { b with states := b.states.insert name value }

def state? (b : Block) (name : String) : Option StateValue := b.states.get? name

end Block

/-- A block position in a dimension. -/
structure Site where
  dimension : DimensionId
  position : BlockPos
  deriving DecidableEq, Repr

namespace Site

instance : Ord Site := ⟨compareLex (compareOn dimension) (compareOn position)⟩

instance : Std.TransOrd Site :=
  inferInstanceAs (Std.TransCmp (compareLex (compareOn dimension) (compareOn position)))

instance : Std.LawfulEqOrd Site where
  compare_self := Std.ReflOrd.compare_self
  eq_of_compare {a b} h := by
    have h : (compare a.dimension b.dimension).then (compare a.position b.position) = .eq := h
    simp only [Ordering.then_eq_eq, Std.LawfulEqOrd.compare_eq_iff_eq] at h
    cases a; cases b
    simp_all

end Site

end CommandChain
