import CommandChain.Entity.Store

/-!
# Ids in use

`EntityStore.Holds` says that an id is in use. In a sound store the free slots
are those with an even generation (`Sound`), and then `allocate` adds one id to
those in use and `release` takes one away.
-/

namespace CommandChain

theorem odd_succ_of_even {g : UInt32} (h : g % 2 = 0) : (g + 1) % 2 = 1 := by
  have h := congrArg UInt32.toNat h
  apply UInt32.toNat_inj.1
  simp only [UInt32.toNat_mod, UInt32.toNat_add, UInt32.reduceToNat] at h ⊢
  omega

theorem even_succ_of_odd {g : UInt32} (h : g % 2 = 1) : (g + 1) % 2 = 0 := by
  have h := congrArg UInt32.toNat h
  apply UInt32.toNat_inj.1
  simp only [UInt32.toNat_mod, UInt32.toNat_add, UInt32.reduceToNat] at h ⊢
  omega

theorem toNat_succ_of_even {g : UInt32} (h : g % 2 = 0) : (g + 1).toNat = g.toNat + 1 := by
  have hg := g.toNat_lt
  have h := congrArg UInt32.toNat h
  simp only [UInt32.toNat_mod, UInt32.toNat_add, UInt32.reduceToNat] at h ⊢
  omega

theorem EntityId.eq_of_slot {a b : EntityId} (hi : a.index = b.index)
    (hg : a.generation = b.generation) : a = b := by
  cases a; cases b; cases hi; cases hg; rfl

theorem EntityId.eq_iff {a b : EntityId} :
    a = b ↔ a.index = b.index ∧ a.generation.toNat = b.generation.toNat :=
  ⟨fun h => h ▸ ⟨rfl, rfl⟩, fun ⟨hi, hg⟩ => eq_of_slot hi (UInt32.toNat_inj.1 hg)⟩

namespace EntityStore

/-- The id is in use. -/
def Holds (s : EntityStore) (id : EntityId) : Prop :=
  s.generations[id.index]? = some id.generation ∧ id.generation % 2 = 1

/-- The free slots are listed, each once. -/
structure Sound (s : EntityStore) : Prop where
  nodup : s.free.Nodup
  mem_free : ∀ i, i ∈ s.free ↔ ∃ g, s.generations[i]? = some g ∧ g % 2 = 0

theorem sound_empty : Sound ∅ where
  nodup := .nil
  mem_free i := by simp [EmptyCollection.emptyCollection, empty]

theorem not_holds_empty (id : EntityId) : ¬ Holds ∅ id := by
  simp [Holds, EmptyCollection.emptyCollection, empty]

theorem validate_eq_ok_iff {s : EntityStore} {id : EntityId} :
    s.validate id = .ok () ↔ s.Holds id := by
  unfold validate Holds
  cases hg : s.generations[id.index]? with
  | none => simp
  | some g =>
    by_cases h : g = id.generation ∧ g % 2 = 1
    · obtain ⟨rfl, hodd⟩ := h
      simp [hodd]
    · have : ¬ (g = id.generation ∧ id.generation % 2 = 1) := fun ⟨he, hodd⟩ => h ⟨he, he ▸ hodd⟩
      simp only [if_neg h, Option.some.injEq, this, iff_false]
      split <;> simp

theorem holds_of_validate {s : EntityStore} {id : EntityId} {u : Unit}
    (h : s.validate id = .ok u) : s.Holds id := validate_eq_ok_iff.1 h

/-! ## Allocation -/

/-- A sound store allocates a free slot, or a new one if there is none. -/
theorem Sound.allocate_cases {s : EntityStore} (h : s.Sound) :
    (∃ i free g, s.free = i :: free ∧ s.generations[i]? = some g ∧ g % 2 = 0 ∧
      s.allocate = (⟨i, g + 1⟩, ⟨s.generations.set i (g + 1), free, s.live + 1⟩)) ∨
    (s.free = [] ∧ s.allocate =
      (⟨s.generations.length, 1⟩, ⟨s.generations ++ [1], [], s.live + 1⟩)) := by
  cases hf : s.free with
  | nil => exact .inr ⟨rfl, by simp [EntityStore.allocate, hf]⟩
  | cons i free =>
    obtain ⟨g, hg, heven⟩ := (h.mem_free i).1 (by rw [hf]; exact List.mem_cons_self)
    exact .inl ⟨i, free, g, rfl, hg, heven, by simp [EntityStore.allocate, hf, hg]⟩

theorem live_allocate (s : EntityStore) : s.allocate.2.live = s.live + 1 := by
  unfold allocate
  split <;> rfl

/-- The allocated slot was free before, or not there. -/
theorem Sound.allocated_slot {s : EntityStore} (h : s.Sound) {g : UInt32}
    (hg : s.generations[s.allocate.1.index]? = some g) :
    g % 2 = 0 ∧ s.allocate.1.generation = g + 1 := by
  rcases h.allocate_cases with ⟨i, free, g', -, hg', heven, ha⟩ | ⟨-, ha⟩
  · rw [ha] at hg ⊢
    obtain rfl : g' = g := Option.some.inj (hg'.symm.trans hg)
    exact ⟨heven, rfl⟩
  · rw [ha] at hg
    simp at hg

theorem Sound.odd_allocated {s : EntityStore} (h : s.Sound) :
    s.allocate.1.generation % 2 = 1 := by
  rcases h.allocate_cases with ⟨i, free, g, -, -, heven, ha⟩ | ⟨-, ha⟩
  · rw [ha]; exact odd_succ_of_even heven
  · rw [ha]; exact odd_succ_of_even (rfl : (0 : UInt32) % 2 = 0)

theorem Sound.getElem?_allocate {s : EntityStore} (h : s.Sound) (j : Nat) :
    s.allocate.2.generations[j]? =
      if j = s.allocate.1.index then some s.allocate.1.generation else s.generations[j]? := by
  rcases h.allocate_cases with ⟨i, free, g, -, hg, -, ha⟩ | ⟨-, ha⟩
  · have hi := (List.getElem?_eq_some_iff.1 hg).1
    rw [ha]
    by_cases he : i = j
    · subst he; simp [hi]
    · simp [he, Ne.symm he]
  · rw [ha]
    by_cases he : j = s.generations.length
    · subst he; simp
    · rw [if_neg he]
      rcases Nat.lt_or_gt_of_ne he with hj | hj
      · rw [List.getElem?_append_left hj]
      · rw [List.getElem?_eq_none (by simp; omega), List.getElem?_eq_none (by omega)]

theorem Sound.holds_allocate {s : EntityStore} (h : s.Sound) (id : EntityId) :
    s.allocate.2.Holds id ↔ id = s.allocate.1 ∨ s.Holds id := by
  unfold Holds
  rw [h.getElem?_allocate]
  by_cases he : id.index = s.allocate.1.index
  · rw [if_pos he]
    constructor
    · rintro ⟨hg, -⟩
      exact .inl (EntityId.eq_of_slot he (Option.some.inj hg).symm)
    · rintro (rfl | ⟨hg, hodd⟩)
      · exact ⟨rfl, h.odd_allocated⟩
      · rw [he] at hg
        have heven := (h.allocated_slot hg).1
        rw [hodd] at heven
        simp at heven
  · rw [if_neg he]
    have : id ≠ s.allocate.1 := fun e => he (e ▸ rfl)
    simp [this]

theorem Sound.allocate {s : EntityStore} (h : s.Sound) : s.allocate.2.Sound := by
  have hgen := h.getElem?_allocate
  have hodd := h.odd_allocated
  rcases h.allocate_cases with ⟨i, free, g, hf, hg, -, ha⟩ | ⟨hf, ha⟩
  · have hnodup := h.nodup
    rw [hf, List.nodup_cons] at hnodup
    refine ⟨by rw [ha]; exact hnodup.2, fun j => ?_⟩
    have hj := h.mem_free j
    rw [hf, List.mem_cons] at hj
    rw [hgen j]
    rw [ha] at hodd ⊢
    by_cases he : j = i
    · subst he
      simp only at hodd
      simp [hnodup.1, hodd]
    · simpa [he] using hj
  · refine ⟨by rw [ha]; exact .nil, fun j => ?_⟩
    have hj := h.mem_free j
    rw [hf] at hj
    rw [hgen j]
    rw [ha] at hodd ⊢
    by_cases he : j = s.generations.length
    · subst he; simp
    · simpa [he] using hj

/-! ## Release -/

theorem release_ok {s s' : EntityStore} {id : EntityId} (h : s.release id = .ok s') :
    s.Holds id ∧
      s' = ⟨s.generations.set id.index (id.generation + 1), id.index :: s.free, s.live - 1⟩ := by
  unfold release at h
  cases hv : s.validate id with
  | error e => rw [hv] at h; cases h
  | ok u =>
    rw [hv] at h
    cases h
    exact ⟨holds_of_validate hv, rfl⟩

theorem getElem?_release {s s' : EntityStore} {id : EntityId} (h : s.release id = .ok s')
    (j : Nat) :
    s'.generations[j]? = if j = id.index then some (id.generation + 1) else s.generations[j]? := by
  obtain ⟨⟨hg, -⟩, rfl⟩ := release_ok h
  have hi := (List.getElem?_eq_some_iff.1 hg).1
  by_cases he : id.index = j
  · subst he; simp [hi]
  · simp [he, Ne.symm he]

theorem holds_release {s s' : EntityStore} {id : EntityId} (h : s.release id = .ok s')
    (id' : EntityId) : s'.Holds id' ↔ s.Holds id' ∧ id' ≠ id := by
  obtain ⟨⟨hg, hodd⟩, -⟩ := release_ok h
  have heven := even_succ_of_odd hodd
  unfold Holds
  rw [getElem?_release h]
  by_cases he : id'.index = id.index
  · rw [if_pos he, he, hg]
    constructor
    · rintro ⟨hg', hodd'⟩
      rw [← Option.some.inj hg', heven] at hodd'
      simp at hodd'
    · rintro ⟨⟨hg', -⟩, hne⟩
      exact absurd (EntityId.eq_of_slot he (Option.some.inj hg').symm) hne
  · rw [if_neg he]
    have : id' ≠ id := fun e => he (e ▸ rfl)
    simp [this]

theorem Sound.release {s s' : EntityStore} {id : EntityId} (h : s.Sound)
    (hr : s.release id = .ok s') : s'.Sound := by
  have hgen := getElem?_release hr
  obtain ⟨⟨hg, hodd⟩, rfl⟩ := release_ok hr
  have heven := even_succ_of_odd hodd
  -- the slot was in use, so it was not listed
  have hnew : id.index ∉ s.free := fun hm => by
    obtain ⟨g, hg', he⟩ := (h.mem_free _).1 hm
    rw [← Option.some.inj (hg.symm.trans hg'), hodd] at he
    simp at he
  refine ⟨List.nodup_cons.2 ⟨hnew, h.nodup⟩, fun j => ?_⟩
  rw [List.mem_cons, hgen j]
  by_cases he : j = id.index
  · simp [he, heven]
  · simp [he, h.mem_free j]

end EntityStore

end CommandChain
