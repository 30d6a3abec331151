import CommandChain.Collection.OrderedMap

/-!
# Identifiers

Names of dimensions, entity types and blocks carry a namespace; `qualify` gives
a bare name the namespace `minecraft`. `EntityId` is a slot number with the
generation of the entity in that slot, so the id of a removed entity is not the
id of its successor.
-/

namespace CommandChain

/-- The name with a namespace. -/
def qualify (name : String) : String :=
  if name.toList.contains ':' then name else "minecraft:" ++ name

theorem toList_qualify (name : String) : (qualify name).toList =
    if ':' ∈ name.toList then name.toList else "minecraft:".toList ++ name.toList := by
  unfold qualify
  simp only [List.contains_iff_mem]
  split <;> simp

theorem qualify_qualify (name : String) : qualify (qualify name) = qualify name := by
  have hcolon : ':' ∈ (qualify name).toList := by
    rw [toList_qualify]
    split
    · assumption
    · exact List.mem_append_left _ (by decide)
  have hcontains : (qualify name).toList.contains ':' := List.contains_iff_mem.2 hcolon
  rw [qualify, if_pos hcontains]

/-- A dimension, by its namespaced name. -/
structure DimensionId where
  id : String
  deriving DecidableEq, Repr

namespace DimensionId

def named (name : String) : DimensionId := ⟨qualify name⟩

def overworld : DimensionId := ⟨"minecraft:overworld"⟩

def nether : DimensionId := ⟨"minecraft:nether"⟩

def theEnd : DimensionId := ⟨"minecraft:the_end"⟩

instance : Inhabited DimensionId := ⟨overworld⟩

instance : Ord DimensionId := ⟨compareOn id⟩

instance : Std.TransOrd DimensionId := inferInstanceAs (Std.TransCmp (compareOn id))

instance : Std.LawfulEqOrd DimensionId where
  compare_self := Std.ReflOrd.compare_self
  eq_of_compare {a b} h := by
    have h : compare a.id b.id = .eq := h
    cases a; cases b
    simpa using h

instance : ToString DimensionId := ⟨id⟩

end DimensionId

/-- A slot of the entity store and the generation of its occupant. -/
structure EntityId where
  index : Nat
  generation : UInt32
  deriving DecidableEq, Repr

namespace EntityId

instance : Ord EntityId := ⟨compareLex (compareOn index) (compareOn generation)⟩

instance : Std.TransOrd EntityId :=
  inferInstanceAs (Std.TransCmp (compareLex (compareOn index) (compareOn generation)))

instance : Std.LawfulEqOrd EntityId where
  compare_self := Std.ReflOrd.compare_self
  eq_of_compare {a b} h := by
    have h : (compare a.index b.index).then (compare a.generation b.generation) = .eq := h
    simp only [Ordering.then_eq_eq, Std.LawfulEqOrd.compare_eq_iff_eq] at h
    cases a; cases b
    simp_all

protected def toString (e : EntityId) : String := "Entity(" ++ toString e.index ++ ")"

instance : ToString EntityId := ⟨EntityId.toString⟩

/-- Slot and generation. -/
def full (e : EntityId) : String :=
  "EntityId(" ++ toString e.index ++ "v" ++ toString e.generation ++ ")"

end EntityId

end CommandChain
