import CommandChain.Error

/-!
# Entity ids

`EntityStore` hands out entity ids. A slot holds a generation: odd while the
slot is in use, even while it is free. Freed slots are used again, the last one
first, with the next odd generation.

The id of a removed entity is unknown until its slot is used again, and stale
from then on.
-/

namespace CommandChain

structure EntityStore where
  generations : List UInt32
  /-- Free slots, the last freed first. -/
  free : List Nat
  /-- Number of ids in use. -/
  live : Nat
  deriving DecidableEq, Repr

namespace EntityStore

def empty : EntityStore := ⟨[], [], 0⟩

instance : EmptyCollection EntityStore := ⟨empty⟩

instance : Inhabited EntityStore := ⟨empty⟩

def isEmpty (s : EntityStore) : Bool := s.live = 0

/-- A new id, and the store with it in use. -/
def allocate (s : EntityStore) : EntityId × EntityStore :=
  match s.free with
  | index :: free =>
    let generation := s.generations.getD index 0 + 1
    (⟨index, generation⟩, ⟨s.generations.set index generation, free, s.live + 1⟩)
  | [] => (⟨s.generations.length, 1⟩, ⟨s.generations ++ [1], [], s.live + 1⟩)

/-- Checks that an id is in use. -/
def validate (s : EntityStore) (id : EntityId) : Except Error Unit :=
  match s.generations[id.index]? with
  | none => .error (Fault.entityNotFound id)
  | some current =>
    if current = id.generation ∧ current % 2 = 1 then .ok ()
    else if current % 2 = 0 ∧ current.toNat ≤ id.generation.toNat + 1 then
      .error (Fault.entityNotFound id)
    else .error (Fault.staleEntity id)

/-- The store with an id no longer in use. -/
def release (s : EntityStore) (id : EntityId) : Except Error EntityStore := do
  s.validate id
  return ⟨s.generations.set id.index (id.generation + 1), id.index :: s.free, s.live - 1⟩

end EntityStore

end CommandChain
