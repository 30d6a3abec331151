import CommandChain.Proofs.Entity.Store
import CommandChain.World.Basic
import Mathlib.Data.List.Induction

/-!
# Operations on worlds

`Operation` is a call on a world, and `perform` makes one call after the other on
a new world, whether or not they fail. What a call does to ids and records is an
`Event`: `happens` says so for every call, and later proofs look at the event
only.

Every call keeps a world consistent: an id is in use exactly if it has a record
(`Consistent.next`).
-/

namespace CommandChain.World

/-- A call on a world. -/
inductive Operation where
  | spawn (e : Entity)
  | despawn (id : EntityId)
  | edit (id : EntityId) (f : Entity → Entity)
  | addTag (id : EntityId) (tag : String)
  | removeTag (id : EntityId) (tag : String)
  | submit (source : CommandSource) (command : String)
  | setBlock (dimension : DimensionId) (position : BlockPos) (b : Block)
  | addDimension (dimension : DimensionId)
  | updateScores (f : Scoreboard → Scoreboard)
  | reject (verb : String)

/-- What a call did to ids and records. -/
inductive Event where
  | handedOut (id : EntityId) (e : Entity)
  | removed (id : EntityId)
  | edited (id : EntityId) (f : Entity → Entity)
  /-- Nothing: the call failed or was about something else. -/
  | other

namespace Operation

/-- The call, with the id that it hands out. -/
def run : Operation → Effect World (Option EntityId)
  | spawn e => fun w => .ok (some (w.spawn e).1) (w.spawn e).2
  | despawn id => do effect (·.despawn id); return none
  | edit id f => do effect (·.edit id f); return none
  | addTag id tag => do Host.addTag id tag; return none
  | removeTag id tag => do Host.removeTag id tag; return none
  | submit source command => do let _ ← Host.submit source command; return none
  | setBlock dimension position b => do modify (·.setBlock dimension position b); return none
  | addDimension dimension => do modify (·.addDimension dimension); return none
  | updateScores f => do modify fun w => { w with scoreboard := f w.scoreboard }; return none
  | reject verb => do modify (·.reject verb); return none

/-- The world after the call. -/
def next (op : Operation) (w : World) : World :=
  match op.run w with
  | .ok _ w' => w'
  | .error _ w' => w'

def event (op : Operation) (w : World) : Event :=
  match op, op.run w with
  | spawn e, .ok (some id) _ => .handedOut id e
  | despawn id, .ok _ _ => .removed id
  | edit id f, .ok _ _ => .edited id f
  | addTag id tag, .ok _ _ => .edited id fun e => { e with tags := e.tags.add tag }
  | removeTag id tag, .ok _ _ => .edited id fun e => { e with tags := e.tags.remove tag }
  | _, _ => .other

end Operation

/-- The events and the world after some calls on a new world. -/
def perform (operations : List Operation) : List Event × World :=
  operations.foldl (fun (events, w) op => (events ++ [op.event w], op.next w)) ([], new)

@[simp] theorem perform_nil : perform [] = ([], new) := rfl

@[simp] theorem perform_concat (operations : List Operation) (op : Operation) :
    perform (operations ++ [op]) =
      ((perform operations).1 ++ [op.event (perform operations).2],
        op.next (perform operations).2) := by
  simp [perform]

/-! ## What a call does -/

/-- The event takes one world to the other, as far as ids and records go. -/
inductive Happens (w w' : World) : Event → Prop where
  | handedOut (e : Entity) : w'.store = w.store.allocate.2 →
      w'.entities = w.entities.insert w.store.allocate.1 e →
      Happens w w' (.handedOut w.store.allocate.1 e)
  | removed {id : EntityId} : w.store.release id = .ok w'.store →
      w'.entities = w.entities.erase id → Happens w w' (.removed id)
  | edited {id : EntityId} {f : Entity → Entity} : w.store.Holds id → w'.store = w.store →
      w'.entities = w.entities.modify id f → Happens w w' (.edited id f)
  | other : w'.store = w.store → w'.entities = w.entities → Happens w w' .other

theorem despawn_ok {w w' : World} {id : EntityId} (h : w.despawn id = .ok w') :
    w.store.release id = .ok w'.store ∧
      w' = { w with store := w'.store, entities := w.entities.erase id } := by
  unfold despawn at h
  cases hr : w.store.release id with
  | error e => rw [hr] at h; cases h
  | ok store => rw [hr] at h; cases h; exact ⟨rfl, rfl⟩

theorem edit_ok {w w' : World} {id : EntityId} {f : Entity → Entity} (h : w.edit id f = .ok w') :
    w.store.Holds id ∧ w' = { w with entities := w.entities.modify id f } := by
  unfold edit at h
  cases hv : w.store.validate id with
  | error e => rw [hv] at h; cases h
  | ok u =>
    rw [hv] at h
    refine ⟨EntityStore.holds_of_validate hv, ?_⟩
    by_cases hc : w.entities.contains id
    · rw [if_pos hc] at h; cases h; rfl
    · rw [if_neg hc] at h; cases h

theorem submit_ok {w w' : World} {source : CommandSource} {command : String} {n : Nat}
    (h : w.submit source command = .ok (n, w')) :
    n = 1 ∧ w' = { w with log := w.log ++ [⟨source, Text.trimmed command⟩] } := by
  simp only [submit, bind, Except.bind, pure, Except.pure, throw, throwThe, MonadExceptOf.throw]
    at h
  grind [Text.trimmed]

theorem effect_then_none (change : World → Except Error World) (w : World) :
    (do effect change; return none : Effect World (Option EntityId)) w =
      match change w with
      | .ok w' => .ok none w'
      | .error e => .error e w := by
  simp only [bind, EStateM.bind, effect]
  cases change w <;> rfl

theorem change_of_ok {change : World → Except Error World} {w w' : World}
    {answer : Option EntityId}
    (h : (do effect change; return none : Effect World (Option EntityId)) w = .ok answer w') :
    change w = .ok w' := by
  rw [effect_then_none] at h
  cases hc : change w with
  | ok w'' => rw [hc] at h; cases h; rfl
  | error e => rw [hc] at h; cases h

theorem run_submit (source : CommandSource) (command : String) (w : World) :
    (Operation.submit source command).run w =
      match w.submit source command with
      | .ok (_, w') => .ok none w'
      | .error e => .error e w := by
  simp only [Operation.run, bind, EStateM.bind, Host.submit]
  cases w.submit source command <;> rfl

theorem logged_of_ok {source : CommandSource} {command : String} {w w' : World}
    {answer : Option EntityId} (h : (Operation.submit source command).run w = .ok answer w') :
    w' = { w with log := w.log ++ [⟨source, Text.trimmed command⟩] } := by
  rw [run_submit] at h
  cases hs : w.submit source command with
  | ok r => rw [hs] at h; cases h; exact (submit_ok hs).2
  | error e => rw [hs] at h; cases h

/-- A call that fails changes nothing. -/
theorem run_error {op : Operation} {w w' : World} {e : Error} (h : op.run w = .error e w') :
    w' = w := by
  have hchange (change : World → Except Error World)
      (h : (do effect change; return none : Effect World (Option EntityId)) w = .error e w') :
      w' = w := by
    rw [effect_then_none] at h
    cases hc : change w with
    | ok w'' => rw [hc] at h; cases h
    | error e' => rw [hc] at h; cases h; rfl
  cases op with
  | despawn id => exact hchange _ h
  | edit id f => exact hchange _ h
  | addTag id tag => exact hchange _ h
  | removeTag id tag => exact hchange _ h
  | submit source command =>
    rw [run_submit] at h
    cases hs : w.submit source command with
    | ok r => rw [hs] at h; cases h
    | error e' => rw [hs] at h; cases h; rfl
  | spawn | setBlock | addDimension | updateScores | reject => cases h

theorem next_of_error {op : Operation} {w w' : World} {e : Error} (h : op.run w = .error e w') :
    op.next w = w := by
  rw [Operation.next, h]
  exact run_error h

theorem next_of_ok {op : Operation} {w w' : World} {answer : Option EntityId}
    (h : op.run w = .ok answer w') : op.next w = w' := by
  rw [Operation.next, h]

theorem happens_of_error {op : Operation} {w w' : World} {e : Error}
    (h : op.run w = .error e w') : Happens w (op.next w) (op.event w) := by
  have he : op.event w = .other := by cases op <;> simp only [Operation.event, h]
  rw [next_of_error h, he]
  exact .other rfl rfl

/-- A call does what its event says. -/
theorem happens (op : Operation) (w : World) : Happens w (op.next w) (op.event w) := by
  cases hr : op.run w with
  | error e w' => exact happens_of_error hr
  | ok answer w' =>
    rw [next_of_ok hr]
    cases op with
    | spawn e => cases hr; exact .handedOut e rfl rfl
    | despawn id =>
      have ⟨hs, he⟩ := despawn_ok (change_of_ok hr)
      simp only [Operation.event, hr]
      exact .removed hs (congrArg entities he)
    | edit id f =>
      have ⟨hh, he⟩ := edit_ok (change_of_ok hr)
      simp only [Operation.event, hr]
      exact .edited hh (he ▸ rfl) (he ▸ rfl)
    | addTag id tag =>
      have ⟨hh, he⟩ := edit_ok (change_of_ok hr)
      simp only [Operation.event, hr]
      exact .edited hh (he ▸ rfl) (he ▸ rfl)
    | removeTag id tag =>
      have ⟨hh, he⟩ := edit_ok (change_of_ok hr)
      simp only [Operation.event, hr]
      exact .edited hh (he ▸ rfl) (he ▸ rfl)
    | submit source command =>
      have he : (Operation.submit source command).event w = .other := by
        simp only [Operation.event]
      rw [he, logged_of_ok hr]
      exact .other rfl rfl
    | setBlock | addDimension | updateScores | reject => cases hr; exact .other rfl rfl

/-- The dimension that a call makes sure of. -/
def Operation.dimension? : Operation → Option DimensionId
  | spawn e => some e.dimension
  | setBlock dimension _ _ => some dimension
  | addDimension dimension => some dimension
  | _ => none

/-- What a call does to the scores. -/
def Operation.rescore : Operation → Scoreboard → Scoreboard
  | updateScores f => f
  | _ => id

/-- What a call does to dimensions and scores. -/
theorem next_frame (op : Operation) (w : World) :
    (op.next w).dimensions = op.dimension?.elim w.dimensions w.dimensions.add ∧
      (op.next w).scoreboard = op.rescore w.scoreboard := by
  cases hr : op.run w with
  | error e w' =>
    rw [next_of_error hr]
    cases op with
    | spawn | setBlock | addDimension | updateScores => cases hr
    | despawn | edit | addTag | removeTag | submit | reject => exact ⟨rfl, rfl⟩
  | ok answer w' =>
    rw [next_of_ok hr]
    cases op with
    | despawn id => rw [(despawn_ok (change_of_ok hr)).2]; exact ⟨rfl, rfl⟩
    | edit | addTag | removeTag => rw [(edit_ok (change_of_ok hr)).2]; exact ⟨rfl, rfl⟩
    | submit => rw [logged_of_ok hr]; exact ⟨rfl, rfl⟩
    | spawn | setBlock | addDimension | updateScores | reject => cases hr; exact ⟨rfl, rfl⟩

/-! ## Consistent worlds -/

/-- The ids in use are those that have a record. -/
structure Consistent (w : World) : Prop where
  sound : w.store.Sound
  holds_iff : ∀ id, w.store.Holds id ↔ (w.entities.get? id).isSome

/-- A world without entities is consistent, whatever else it has. -/
theorem consistent_of_empty {w : World} (hs : w.store = ∅) (he : w.entities = ∅) :
    w.Consistent where
  sound := hs ▸ EntityStore.sound_empty
  holds_iff id := by
    rw [hs, he]
    exact iff_of_false (EntityStore.not_holds_empty id) (by simp)

theorem Consistent.after {w w' : World} {event : Event} (h : w.Consistent)
    (he : Happens w w' event) : w'.Consistent := by
  cases he with
  | handedOut e hs hr =>
    refine ⟨hs ▸ h.sound.allocate, fun id => ?_⟩
    rw [hs, hr, h.sound.holds_allocate, OrderedMap.get?_insert, h.holds_iff]
    by_cases he : id = w.store.allocate.1 <;> simp [he]
  | @removed id hs hr =>
    refine ⟨h.sound.release hs, fun id' => ?_⟩
    rw [hr, EntityStore.holds_release hs, OrderedMap.get?_erase, h.holds_iff]
    by_cases he : id' = id <;> simp [he]
  | @edited id f _ hs hr =>
    refine ⟨hs ▸ h.sound, fun id' => ?_⟩
    rw [hs, hr, OrderedMap.get?_modify, h.holds_iff]
    split <;> simp
  | other hs hr => exact ⟨hs ▸ h.sound, fun id => by rw [hs, hr]; exact h.holds_iff id⟩

theorem Consistent.next {w : World} (h : w.Consistent) (op : Operation) :
    (op.next w).Consistent :=
  h.after (happens op w)

theorem consistent_perform (operations : List Operation) :
    (perform operations).2.Consistent := by
  induction operations using List.reverseRecOn with
  | nil => exact consistent_of_empty rfl rfl
  | append_singleton operations op ih =>
    rw [perform_concat]
    exact ih.next op

/-- A consistent world finds the record of every id that has one. -/
theorem Consistent.entity?_eq {w : World} (h : w.Consistent) (id : EntityId) :
    w.entity? id = w.entities.get? id := by
  unfold entity?
  cases hv : w.store.validate id with
  | ok u => rfl
  | error e =>
    have hn : ¬ w.store.Holds id := fun hh => by
      rw [EntityStore.validate_eq_ok_iff.2 hh] at hv
      cases hv
    rw [h.holds_iff, Option.not_isSome_iff_eq_none] at hn
    exact hn.symm

end CommandChain.World
