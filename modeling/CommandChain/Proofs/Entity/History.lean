import CommandChain.Proofs.Entity.Store
import Mathlib.Data.List.Induction
import Mathlib.Data.List.Nodup

/-!
# Histories of ids

`perform` makes one call after the other on an empty store, whether or not they
fail, and lists what they came to. The age of a slot counts how often it was taken
and freed, so an id handed out has an odd generation, and where the age of its slot
stands against it says whether the id is in use, released, or replaced (`Recounts`).
Every call that succeeds moves one slot on by one.

`validate_perform` reads from this what a store answers to ids after any calls.
-/

namespace CommandChain

/-- With one element more, a place in the list is the last one, or one of before. -/
theorem concat_eq_iff {α : Type} {l before after : List α} {last middle : α} :
    l ++ [last] = before ++ middle :: after ↔
      (after = [] ∧ l = before ∧ last = middle) ∨
        ∃ later, after = later ++ [last] ∧ l = before ++ middle :: later := by
  rcases List.eq_nil_or_concat after with rfl | ⟨later, last', rfl⟩
  · simp [List.append_singleton_inj]
  · rw [List.concat_eq_append, ← List.cons_append, ← List.append_assoc, List.append_singleton_inj]
    constructor
    · rintro ⟨he, rfl⟩
      exact .inr ⟨later, rfl, he⟩
    · rintro (⟨hnil, -⟩ | ⟨later', hl, he⟩)
      · simp at hnil
      · obtain ⟨rfl, rfl⟩ := List.append_singleton_inj.1 hl
        exact ⟨he, rfl⟩

namespace EntityStore

/-- A call on a store. -/
inductive Call where
  | allocate
  | release (id : EntityId)
  deriving DecidableEq, Repr

/-- What a call came to. -/
inductive Event where
  | allocated (id : EntityId)
  | released (id : EntityId)
  /-- The release failed. -/
  | refused (id : EntityId) (e : Error)
  deriving DecidableEq, Repr

def Call.run (s : EntityStore) : Call → Event × EntityStore
  | allocate => (.allocated s.allocate.1, s.allocate.2)
  | release id =>
    match s.release id with
    | .ok s' => (.released id, s')
    | .error e => (.refused id e, s)

/-- The events and the store after some calls on an empty store. -/
def perform (calls : List Call) : List Event × EntityStore :=
  calls.foldl (fun (events, s) call => (events ++ [(call.run s).1], (call.run s).2)) ([], ∅)

@[simp] theorem perform_nil : perform [] = ([], ∅) := rfl

@[simp] theorem perform_concat (calls : List Call) (call : Call) :
    perform (calls ++ [call]) =
      ((perform calls).1 ++ [(call.run (perform calls).2).1], (call.run (perform calls).2).2) := by
  simp [perform]

/-! ## What events say of an id -/

def Event.newId? : Event → Option EntityId
  | allocated id => some id
  | _ => none

/-- The ids handed out, in that order. -/
def handedOut (events : List Event) : List EntityId := events.filterMap Event.newId?

/-- The ids handed out and not released. -/
def unreleased (events : List Event) : List EntityId :=
  (handedOut events).filter fun id => .released id ∉ events

/-- The id was released, and its slot was not handed out again. -/
def Vacant (events : List Event) (id : EntityId) : Prop :=
  ∃ before after, events = before ++ .released id :: after ∧
    ∀ id' ∈ handedOut after, id'.index ≠ id.index

/-- The id was released, and its slot was handed out again. -/
def Reused (events : List Event) (id : EntityId) : Prop :=
  ∃ before after, events = before ++ .released id :: after ∧
    ∃ id' ∈ handedOut after, id'.index = id.index

/-- No id is released whose slot has no further generation. -/
def NoOverflow (events : List Event) : Prop :=
  ∀ id, .released id ∈ events → id.generation.toNat + 1 < UInt32.size

section

variable {events : List Event} {event : Event} {id : EntityId}

theorem mem_handedOut_concat :
    id ∈ handedOut (events ++ [event]) ↔ id ∈ handedOut events ∨ event.newId? = some id := by
  simp [handedOut, List.mem_filterMap]

theorem handedOut_allocated :
    handedOut (events ++ [.allocated id]) = handedOut events ++ [id] := by
  simp [handedOut, Event.newId?]

theorem handedOut_of_old (h : event.newId? = none) :
    handedOut (events ++ [event]) = handedOut events := by
  simp [handedOut, h]

theorem unreleased_allocated (h : .released id ∉ events) :
    unreleased (events ++ [.allocated id]) = unreleased events ++ [id] := by
  simp [unreleased, handedOut_allocated, h]

theorem unreleased_released :
    unreleased (events ++ [.released id]) = (unreleased events).filter (· != id) := by
  rw [unreleased, handedOut_of_old rfl, unreleased, List.filter_filter]
  refine List.filter_congr fun id' _ => ?_
  by_cases he : id' = id <;> simp [he]

theorem vacant_concat :
    Vacant (events ++ [event]) id ↔ event = .released id ∨
      (Vacant events id ∧ ∀ id', event.newId? = some id' → id'.index ≠ id.index) := by
  simp only [Vacant, concat_eq_iff]
  constructor
  · rintro ⟨before, after, ⟨-, -, rfl⟩ | ⟨later, rfl, he⟩, hnew⟩
    · exact .inl rfl
    · exact .inr ⟨⟨before, later, he, fun id' h => hnew id' (mem_handedOut_concat.2 (.inl h))⟩,
        fun id' h => hnew id' (mem_handedOut_concat.2 (.inr h))⟩
  · rintro (rfl | ⟨⟨before, later, he, hnew⟩, hlast⟩)
    · exact ⟨events, [], .inl ⟨rfl, rfl, rfl⟩, nofun⟩
    · refine ⟨before, later ++ [event], .inr ⟨later, rfl, he⟩, fun id' h => ?_⟩
      exact (mem_handedOut_concat.1 h).elim (hnew id') (hlast id')

theorem reused_concat :
    Reused (events ++ [event]) id ↔ Reused events id ∨
      (.released id ∈ events ∧ ∃ id', event.newId? = some id' ∧ id'.index = id.index) := by
  simp only [Reused, concat_eq_iff]
  constructor
  · rintro ⟨before, after, ⟨rfl, -, -⟩ | ⟨later, rfl, rfl⟩, id', hnew, hi⟩
    · cases hnew
    · rcases mem_handedOut_concat.1 hnew with h | h
      · exact .inl ⟨before, later, rfl, id', h, hi⟩
      · exact .inr ⟨List.mem_append_right _ List.mem_cons_self, id', h, hi⟩
  · rintro (⟨before, later, he, id', hnew, hi⟩ | ⟨hr, id', hnew, hi⟩)
    · exact ⟨before, later ++ [event], .inr ⟨later, rfl, he⟩, id',
        mem_handedOut_concat.2 (.inl hnew), hi⟩
    · obtain ⟨before, later, he⟩ := List.append_of_mem hr
      exact ⟨before, later ++ [event], .inr ⟨later, rfl, he⟩, id',
        mem_handedOut_concat.2 (.inr hnew), hi⟩

end

/-! ## Ages of slots -/

/-- How often a slot was taken and freed. -/
def age (s : EntityStore) (index : Nat) : Nat := (s.generations.getD index 0).toNat

/-- What `validate` answers, from the age of the slot. -/
theorem validate_eq (s : EntityStore) (id : EntityId) :
    s.validate id =
      if s.age id.index = id.generation.toNat ∧ s.age id.index % 2 = 1 then .ok ()
      else if s.age id.index % 2 = 0 ∧ s.age id.index ≤ id.generation.toNat + 1 then
        .error (Fault.entityNotFound id)
      else .error (Fault.staleEntity id) := by
  have hodd (g : UInt32) : g % 2 = 1 ↔ g.toNat % 2 = 1 := by
    rw [← UInt32.toNat_inj, UInt32.toNat_mod]; rfl
  have heven (g : UInt32) : g % 2 = 0 ↔ g.toNat % 2 = 0 := by
    rw [← UInt32.toNat_inj, UInt32.toNat_mod]; rfl
  unfold validate age
  rw [List.getD_eq_getElem?_getD]
  cases s.generations[id.index]? with
  | none => simp
  | some g => simp only [hodd, heven, ← UInt32.toNat_inj, Option.getD_some]

section

variable {s s' : EntityStore} {id : EntityId}

/-- The slot taken is free, and the id has its next generation. -/
theorem Sound.age_allocated (h : s.Sound) :
    s.age s.allocate.1.index % 2 = 0 ∧
      s.allocate.1.generation.toNat = s.age s.allocate.1.index + 1 := by
  rcases h.allocate_cases with ⟨i, free, g, -, hg, heven, ha⟩ | ⟨-, ha⟩
  · have hage : s.age i = g.toNat := by simp [age, hg]
    have heven' : g.toNat % 2 = 0 := congrArg UInt32.toNat heven
    rw [ha]
    exact ⟨hage ▸ heven', hage ▸ toNat_succ_of_even heven⟩
  · have hage : s.age s.generations.length = 0 := by simp [age]
    rw [ha]
    dsimp only
    rw [hage]
    exact ⟨rfl, rfl⟩

/-- Allocation moves the slot taken on by one. -/
theorem Sound.age_allocate (h : s.Sound) (i : Nat) :
    s.allocate.2.age i = if i = s.allocate.1.index then s.age i + 1 else s.age i := by
  simp only [age, List.getD_eq_getElem?_getD, h.getElem?_allocate]
  split
  · next hi => subst hi; exact h.age_allocated.2
  · rfl

theorem age_released (h : s.release id = .ok s') :
    id.generation.toNat % 2 = 1 ∧ s.age id.index = id.generation.toNat := by
  obtain ⟨⟨hg, hodd⟩, -⟩ := release_ok h
  exact ⟨congrArg UInt32.toNat hodd, by simp [age, hg]⟩

/-- A release moves the slot freed on by one, unless that was its last generation. -/
theorem age_release (h : s.release id = .ok s')
    (hgen : id.generation.toNat + 1 < UInt32.size) (i : Nat) :
    s'.age i = if i = id.index then s.age i + 1 else s.age i := by
  have hnext : (id.generation + 1).toNat = id.generation.toNat + 1 := by
    rw [UInt32.toNat_add]
    exact Nat.mod_eq_of_lt hgen
  have hage := (age_released h).2
  simp only [age, List.getD_eq_getElem?_getD, getElem?_release h] at hage ⊢
  split
  · next hi => subst hi; rw [Option.getD_some, hnext, hage]
  · rfl

theorem age_empty (i : Nat) : (∅ : EntityStore).age i = 0 := rfl

/-! ## The invariant of a history -/

/-- The ages of the slots tell what the events say of every id. -/
structure Recounts (s : EntityStore) (events : List Event) : Prop where
  sound : s.Sound
  handedOut_iff : ∀ id, id ∈ handedOut events ↔
    id.generation.toNat % 2 = 1 ∧ id.generation.toNat ≤ s.age id.index
  released_iff : ∀ id, .released id ∈ events ↔
    id.generation.toNat % 2 = 1 ∧ id.generation.toNat < s.age id.index
  vacant_iff : ∀ id, Vacant events id ↔
    id.generation.toNat % 2 = 1 ∧ s.age id.index = id.generation.toNat + 1
  reused_iff : ∀ id, Reused events id ↔
    id.generation.toNat % 2 = 1 ∧ id.generation.toNat + 1 < s.age id.index
  nodup : (handedOut events).Nodup
  live_eq : s.live = (unreleased events).length

theorem recounts_empty : Recounts ∅ [] where
  sound := sound_empty
  handedOut_iff id := iff_of_false nofun (by rw [age_empty]; omega)
  released_iff id := iff_of_false nofun (by rw [age_empty]; omega)
  vacant_iff id := iff_of_false (by simp [Vacant]) (by rw [age_empty]; omega)
  reused_iff id := iff_of_false (by simp [Reused]) (by rw [age_empty]; omega)
  nodup := .nil
  live_eq := rfl

variable {events : List Event}

/-- The next id is not one of those handed out. -/
theorem Recounts.allocate_fresh (h : Recounts s events) : s.allocate.1 ∉ handedOut events := by
  have hnew := h.sound.age_allocated.2
  rw [h.handedOut_iff]
  omega

theorem Recounts.allocated (h : Recounts s events) :
    Recounts s.allocate.2 (events ++ [.allocated s.allocate.1]) := by
  obtain ⟨heven, hnew⟩ := h.sound.age_allocated
  have hage := h.sound.age_allocate
  have heq (id : EntityId) : Event.newId? (.allocated s.allocate.1) = some id ↔
      id.index = s.allocate.1.index ∧
        id.generation.toNat = s.age s.allocate.1.index + 1 := by
    rw [← hnew, Event.newId?, Option.some.injEq, eq_comm, EntityId.eq_iff]
  have hunreleased : .released s.allocate.1 ∉ events := by
    rw [h.released_iff]; omega
  refine ⟨h.sound.allocate, fun id => ?_, fun id => ?_, fun id => ?_, fun id => ?_, ?_, ?_⟩
  · rw [mem_handedOut_concat, h.handedOut_iff, heq, hage]
    split
    · next hi => rw [hi]; omega
    · omega
  · rw [List.mem_append, h.released_iff, hage]
    simp only [List.mem_singleton, reduceCtorEq, or_false]
    split
    · next hi => rw [hi]; omega
    · omega
  · rw [vacant_concat, h.vacant_iff, hage]
    simp only [reduceCtorEq, false_or, Event.newId?, Option.some.injEq, forall_eq']
    split
    · next hi => rw [hi]; omega
    · next hi => simp [Ne.symm hi]
  · rw [reused_concat, h.reused_iff, h.released_iff, hage]
    simp only [Event.newId?, Option.some.injEq, exists_eq_left']
    split
    · next hi => rw [hi]; omega
    · next hi => simp [Ne.symm hi]
  · rw [handedOut_allocated]
    exact List.nodup_append'.2 ⟨h.nodup, List.nodup_singleton _, by simpa using h.allocate_fresh⟩
  · rw [live_allocate, h.live_eq, unreleased_allocated hunreleased, List.length_append,
      List.length_singleton]

theorem Recounts.released (h : Recounts s events) (hr : s.release id = .ok s')
    (hgen : id.generation.toNat + 1 < UInt32.size) :
    Recounts s' (events ++ [.released id]) := by
  obtain ⟨hodd, hid⟩ := age_released hr
  have hage := age_release hr hgen
  have heq (id' : EntityId) : Event.released id = .released id' ↔
      id'.index = id.index ∧ id'.generation.toNat = s.age id.index := by
    rw [hid, Event.released.injEq, eq_comm, EntityId.eq_iff]
  refine ⟨h.sound.release hr, fun id' => ?_, fun id' => ?_, fun id' => ?_, fun id' => ?_, ?_, ?_⟩
  · rw [mem_handedOut_concat, h.handedOut_iff, hage]
    simp only [Event.newId?, reduceCtorEq, or_false]
    split
    · next hi => rw [hi]; omega
    · rfl
  · rw [List.mem_append, List.mem_singleton, eq_comm (a := Event.released id'), heq,
      h.released_iff, hage]
    split
    · next hi => rw [hi]; omega
    · omega
  · rw [vacant_concat, h.vacant_iff, heq, hage]
    simp only [Event.newId?, reduceCtorEq, false_imp_iff, implies_true, and_true]
    split
    · next hi => rw [hi]; omega
    · omega
  · rw [reused_concat, h.reused_iff, hage]
    simp only [Event.newId?, reduceCtorEq, false_and, exists_false, and_false, or_false]
    split
    · next hi => rw [hi]; omega
    · rfl
  · rw [handedOut_of_old rfl]
    exact h.nodup
  · have hmem : id ∈ unreleased events := by
      have hout := (h.handedOut_iff id).2 ⟨hodd, hid ▸ Nat.le_refl _⟩
      refine List.mem_filter.2 ⟨hout, decide_eq_true ?_⟩
      rw [h.released_iff, hid]
      omega
    have hnodup : (unreleased events).Nodup := h.nodup.filter _
    rw [unreleased_released, ← hnodup.erase_eq_filter, List.length_erase_of_mem hmem, ← h.live_eq,
      (release_ok hr).2]

theorem Recounts.refused (h : Recounts s events) (id : EntityId) (e : Error) :
    Recounts s (events ++ [.refused id e]) := by
  have hout : handedOut (events ++ [.refused id e]) = handedOut events := handedOut_of_old rfl
  have hreleased (id' : EntityId) :
      .released id' ∈ events ++ [.refused id e] ↔ .released id' ∈ events := by simp
  refine ⟨h.sound, fun id' => ?_, fun id' => ?_, fun id' => ?_, fun id' => ?_, hout ▸ h.nodup, ?_⟩
  · rw [hout, h.handedOut_iff]
  · rw [hreleased, h.released_iff]
  · rw [vacant_concat, ← h.vacant_iff]
    simp [Event.newId?]
  · rw [reused_concat, ← h.reused_iff]
    simp [Event.newId?]
  · rw [h.live_eq]
    simp only [unreleased, hout, hreleased]

end

theorem recounts_perform (calls : List Call) (hgen : NoOverflow (perform calls).1) :
    Recounts (perform calls).2 (perform calls).1 := by
  induction calls using List.reverseRecOn with
  | nil => exact recounts_empty
  | append_singleton calls call ih =>
    rw [perform_concat] at hgen ⊢
    have h := ih fun id hid => hgen id (List.mem_append_left _ hid)
    cases call with
    | allocate => exact h.allocated
    | release id =>
      simp only [Call.run] at hgen ⊢
      cases hr : (perform calls).2.release id with
      | ok s' =>
        rw [hr] at hgen
        exact h.released hr (hgen id (List.mem_append_right _ List.mem_cons_self))
      | error e => exact h.refused id e

section

variable {s : EntityStore} {events : List Event} {id : EntityId}

/-- The slot of an id handed out is as old as the id, one step older, or older still. -/
theorem Recounts.validate_cases (h : Recounts s events) (hid : id ∈ handedOut events) :
    (s.age id.index = id.generation.toNat ∧ s.validate id = .ok ()) ∨
    (s.age id.index = id.generation.toNat + 1 ∧
      s.validate id = .error (Fault.entityNotFound id)) ∨
    (id.generation.toNat + 1 < s.age id.index ∧
      s.validate id = .error (Fault.staleEntity id)) := by
  obtain ⟨hodd, hle⟩ := (h.handedOut_iff id).1 hid
  rw [validate_eq]
  rcases Nat.lt_trichotomy (s.age id.index) (id.generation.toNat + 1) with ha | ha | ha
  · exact .inl ⟨by omega, if_pos ⟨by omega, by omega⟩⟩
  · exact .inr (.inl ⟨ha, by rw [if_neg (by omega), if_pos ⟨by omega, by omega⟩]⟩)
  · exact .inr (.inr ⟨ha, by rw [if_neg (by omega), if_neg (by omega)]⟩)

theorem Recounts.validate_ok_iff (h : Recounts s events) (hid : id ∈ handedOut events) :
    s.validate id = .ok () ↔ .released id ∉ events := by
  have hodd := ((h.handedOut_iff id).1 hid).1
  rw [h.released_iff]
  rcases h.validate_cases hid with ⟨ha, hv⟩ | ⟨ha, hv⟩ | ⟨ha, hv⟩ <;> simp [hv, hodd] <;> omega

theorem Recounts.validate_unknown_iff (h : Recounts s events) (hid : id ∈ handedOut events) :
    s.validate id = .error (Fault.entityNotFound id) ↔ Vacant events id := by
  have hodd := ((h.handedOut_iff id).1 hid).1
  rw [h.vacant_iff]
  rcases h.validate_cases hid with ⟨ha, hv⟩ | ⟨ha, hv⟩ | ⟨ha, hv⟩ <;> simp [hv, hodd] <;> omega

theorem Recounts.validate_stale_iff (h : Recounts s events) (hid : id ∈ handedOut events) :
    s.validate id = .error (Fault.staleEntity id) ↔ Reused events id := by
  have hodd := ((h.handedOut_iff id).1 hid).1
  rw [h.reused_iff]
  rcases h.validate_cases hid with ⟨ha, hv⟩ | ⟨ha, hv⟩ | ⟨ha, hv⟩ <;> simp [hv, hodd] <;> omega

theorem Recounts.holds_iff (h : Recounts s events) (id : EntityId) :
    s.Holds id ↔ id ∈ handedOut events ∧ .released id ∉ events := by
  constructor
  · intro hh
    have hage : s.age id.index = id.generation.toNat := by simp [age, hh.1]
    have hid : id ∈ handedOut events :=
      (h.handedOut_iff id).2 ⟨congrArg UInt32.toNat hh.2, hage ▸ Nat.le_refl _⟩
    exact ⟨hid, (h.validate_ok_iff hid).1 (validate_eq_ok_iff.2 hh)⟩
  · rintro ⟨hid, hkept⟩
    exact validate_eq_ok_iff.1 ((h.validate_ok_iff hid).2 hkept)

theorem Recounts.exists_generation (h : Recounts s events) (hid : id ∈ handedOut events) :
    ∃ g, s.generations[id.index]? = some g ∧ id.generation.toNat ≤ g.toNat := by
  obtain ⟨hodd, hle⟩ := (h.handedOut_iff id).1 hid
  unfold age at hle
  rw [List.getD_eq_getElem?_getD] at hle
  cases hg : s.generations[id.index]? with
  | none => rw [hg] at hle; simp at hle; omega
  | some g => rw [hg] at hle; exact ⟨g, rfl, hle⟩

theorem Recounts.validate_of_new (h : Recounts s events)
    (hnew : ∀ id' ∈ handedOut events, id'.index ≠ id.index) :
    s.validate id = .error (Fault.entityNotFound id) := by
  -- the first id of a slot that was ever taken has been handed out
  have hage : s.age id.index = 0 := by
    by_contra hpos
    exact hnew ⟨id.index, 1⟩ ((h.handedOut_iff _).2 ⟨rfl, Nat.one_le_iff_ne_zero.2 hpos⟩) rfl
  rw [validate_eq, hage]
  simp

end

/-- Ids are handed out once only. A store accepts an id handed out until it is released;
from then on the id is unknown until its slot is handed out again, and stale after that.
It knows no id of a slot never handed out, counts the ids handed out and not released,
and a release that fails changes nothing. -/
theorem validate_perform (calls : List Call) (hgen : NoOverflow (perform calls).1) :
    (handedOut (perform calls).1).Nodup ∧
    (∀ id ∈ handedOut (perform calls).1,
      ((perform calls).2.validate id = .ok () ↔ .released id ∉ (perform calls).1) ∧
      ((perform calls).2.validate id = .error (Fault.entityNotFound id) ↔
        Vacant (perform calls).1 id) ∧
      ((perform calls).2.validate id = .error (Fault.staleEntity id) ↔
        Reused (perform calls).1 id)) ∧
    (∀ id, (∀ id' ∈ handedOut (perform calls).1, id'.index ≠ id.index) →
      (perform calls).2.validate id = .error (Fault.entityNotFound id)) ∧
    (perform calls).2.live = (unreleased (perform calls).1).length ∧
    ∀ id e, (perform calls).2.release id = .error e →
      (Call.release id).run (perform calls).2 = (.refused id e, (perform calls).2) := by
  have h := recounts_perform calls hgen
  refine ⟨h.nodup, fun id hid => ?_, fun id hnew => ?_, h.live_eq, fun id e he => ?_⟩
  · exact ⟨h.validate_ok_iff hid, h.validate_unknown_iff hid, h.validate_stale_iff hid⟩
  · exact h.validate_of_new hnew
  · rw [Call.run, he]

/-- Two ids, of which the first is released and its slot used twice again; it is stale
also while the slot is free. -/
theorem validate_perform_reuse :
    let calls : List Call := [.allocate, .allocate, .release ⟨0, 1⟩, .allocate, .release ⟨0, 3⟩,
      .release ⟨0, 1⟩]
    NoOverflow (perform calls).1 ∧ handedOut (perform calls).1 = [⟨0, 1⟩, ⟨1, 1⟩, ⟨0, 3⟩] ∧
      (perform calls).2.validate ⟨1, 1⟩ = .ok () ∧
      (perform calls).2.validate ⟨0, 3⟩ = .error (Fault.entityNotFound ⟨0, 3⟩) ∧
      (perform calls).2.validate ⟨0, 1⟩ = .error (Fault.staleEntity ⟨0, 1⟩) ∧
      (perform calls).2.validate ⟨2, 1⟩ = .error (Fault.entityNotFound ⟨2, 1⟩) ∧
      (perform calls).2.live = 1 := by
  intro calls
  have hevents : (perform calls).1 = [.allocated ⟨0, 1⟩, .allocated ⟨1, 1⟩, .released ⟨0, 1⟩,
      .allocated ⟨0, 3⟩, .released ⟨0, 3⟩, .refused ⟨0, 1⟩ (Fault.staleEntity ⟨0, 1⟩)] := by
    decide
  have hgen : NoOverflow (perform calls).1 := by
    intro id hid
    have hid : id = ⟨0, 1⟩ ∨ id = ⟨0, 3⟩ := by simpa [hevents] using hid
    rcases hid with rfl | rfl <;> decide
  obtain ⟨-, hvalid, hnew, hlive, -⟩ := validate_perform calls hgen
  rw [hevents] at hvalid hnew hlive
  refine ⟨hgen, by rw [hevents]; rfl, ?_, ?_, ?_, ?_, hlive⟩
  · exact (hvalid ⟨1, 1⟩ (by decide)).1.2 (by decide)
  · exact (hvalid ⟨0, 3⟩ (by decide)).2.1.2
      ⟨[.allocated ⟨0, 1⟩, .allocated ⟨1, 1⟩, .released ⟨0, 1⟩, .allocated ⟨0, 3⟩],
        [.refused ⟨0, 1⟩ (Fault.staleEntity ⟨0, 1⟩)], rfl, nofun⟩
  · exact (hvalid ⟨0, 1⟩ (by decide)).2.2.2 ⟨[.allocated ⟨0, 1⟩, .allocated ⟨1, 1⟩],
      [.allocated ⟨0, 3⟩, .released ⟨0, 3⟩, .refused ⟨0, 1⟩ (Fault.staleEntity ⟨0, 1⟩)], rfl,
      ⟨0, 3⟩, by decide, rfl⟩
  · exact hnew ⟨2, 1⟩ (by decide)

end EntityStore

end CommandChain
