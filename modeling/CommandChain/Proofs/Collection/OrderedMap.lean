import CommandChain.Collection.OrderedMap
import Mathlib.Data.List.Forall2
import Mathlib.Data.List.Sort

/-!
# Listings of finite maps

The entries of a map are the pairs that `get?` finds (`mem_entries_iff`), and no
key is listed twice; so maps that agree on `get?` are equal (`eq_of_get?`). Maps
with the same keys are compared by their values (`Related`), which insertion of
related values preserves. Sets are maps without values.
-/

namespace CommandChain

namespace OrderedMap

open Std

variable {κ α : Type} [Ord κ]

theorem nodup_keys [TransOrd κ] (m : OrderedMap κ α) : m.keys.Nodup := by
  refine List.pairwise_map.2 (m.ascending.imp ?_)
  intro a b hab he
  have heq : compare b.1 b.1 = .lt := he ▸ hab
  rw [ReflOrd.compare_self] at heq
  cases heq

theorem mem_of_lookup [LawfulEqOrd κ] {k : κ} {v : α} {l : List (κ × α)}
    (h : lookup k l = some v) : (k, v) ∈ l := by
  induction l with
  | nil => cases h
  | cons e l ih =>
    simp only [lookup] at h
    by_cases hk : compare k e.1 = .eq
    · rw [if_pos hk] at h
      cases h
      rw [LawfulEqCmp.eq_of_compare hk]
      exact List.mem_cons_self
    · rw [if_neg hk] at h
      exact .tail _ (ih h)

theorem lookup_of_mem [TransOrd κ] {k : κ} {v : α} {l : List (κ × α)}
    (hl : l.Pairwise fun a b => compare a.1 b.1 = .lt) (h : (k, v) ∈ l) :
    lookup k l = some v := by
  induction l with
  | nil => cases h
  | cons e l ih =>
    obtain ⟨hlow, hl⟩ := List.pairwise_cons.1 hl
    simp only [lookup]
    rcases List.mem_cons.1 h with rfl | h
    · rw [if_pos ReflCmp.compare_self]
    · have hgt := OrientedCmp.gt_iff_lt.2 (hlow _ h)
      have hne : ¬ compare k e.1 = .eq := by
        intro heq
        rw [hgt] at heq
        cases heq
      rw [if_neg hne]
      exact ih hl h

theorem mem_entries_iff [TransOrd κ] [LawfulEqOrd κ] {m : OrderedMap κ α} {k : κ} {v : α} :
    (k, v) ∈ m.entries ↔ m.get? k = some v :=
  ⟨lookup_of_mem m.ascending, mem_of_lookup⟩

theorem forall_get?_iff [TransOrd κ] [LawfulEqOrd κ] {m : OrderedMap κ α} {P : κ → α → Prop} :
    (∀ k v, m.get? k = some v → P k v) ↔ ∀ r ∈ m.entries, P r.1 r.2 := by
  simp only [← mem_entries_iff, Prod.forall]

theorem mem_keys_iff [TransOrd κ] [LawfulEqOrd κ] {m : OrderedMap κ α} {k : κ} :
    k ∈ m.keys ↔ (m.get? k).isSome := by
  simp only [keys, List.mem_map, Prod.exists, mem_entries_iff, exists_and_right, exists_eq_right,
    Option.isSome_iff_exists]

theorem eq_of_get? [TransOrd κ] [LawfulEqOrd κ] {m n : OrderedMap κ α}
    (h : ∀ k, m.get? k = n.get? k) : m = n := by
  have hirrefl : Std.Irrefl fun a b : κ × α => compare a.1 b.1 = .lt :=
    ⟨fun a ha => by rw [ReflOrd.compare_self] at ha; cases ha⟩
  have hantisymm : Std.Antisymm fun a b : κ × α => compare a.1 b.1 = .lt :=
    ⟨fun a b hab hba => by rw [OrientedCmp.gt_iff_lt.2 hab] at hba; cases hba⟩
  have hmem (e : κ × α) : e ∈ m.entries ↔ e ∈ n.entries := by
    obtain ⟨k, v⟩ := e
    rw [mem_entries_iff, mem_entries_iff, h]
  exact eq_of_entries (m.ascending.eq_of_mem_iff n.ascending hmem)

/-! ## Changes one after the other -/

theorem erase_insert [TransOrd κ] [LawfulEqOrd κ] (m : OrderedMap κ α) (k : κ) (v : α) :
    (m.insert k v).erase k = m.erase k := by
  refine eq_of_get? fun k' => ?_
  rw [get?_erase, get?_erase, get?_insert]
  split <;> rfl

theorem erase_of_get?_none [TransOrd κ] [LawfulEqOrd κ] {m : OrderedMap κ α} {k : κ}
    (h : m.get? k = none) : m.erase k = m := by
  refine eq_of_get? fun k' => ?_
  rw [get?_erase]
  split
  · next hk => rw [LawfulEqCmp.eq_of_compare hk, h]
  · rfl

theorem modify_modify [TransOrd κ] [LawfulEqOrd κ] (m : OrderedMap κ α) (k : κ) (f g : α → α) :
    (m.modify k f).modify k g = m.modify k (g ∘ f) := by
  refine eq_of_get? fun k' => ?_
  simp only [get?_modify]
  split
  · rw [Option.map_map]
  · rfl

theorem modify_eq_self [TransOrd κ] [LawfulEqOrd κ] {m : OrderedMap κ α} {k : κ} {f : α → α}
    (h : ∀ v, m.get? k = some v → f v = v) : m.modify k f = m := by
  refine eq_of_get? fun k' => ?_
  rw [get?_modify]
  split
  · next hk =>
    obtain rfl := LawfulEqCmp.eq_of_compare hk
    cases hv : m.get? k' with
    | none => rfl
    | some v => rw [Option.map_some, h v hv]
  · rfl

/-! ## Maps with the same keys -/

section

variable {β : Type} {R : α → β → Prop} {m : OrderedMap κ α} {n : OrderedMap κ β}

/-- Same key, with related values. -/
def Corresponds (R : α → β → Prop) (a : κ × α) (b : κ × β) : Prop := a.1 = b.1 ∧ R a.2 b.2

/-- Same keys, with related values. -/
def Related (R : α → β → Prop) (m : OrderedMap κ α) (n : OrderedMap κ β) : Prop :=
  List.Forall₂ (Corresponds R) m.entries n.entries

theorem lookup_corresponds {l : List (κ × α)} {l' : List (κ × β)}
    (h : List.Forall₂ (Corresponds R) l l') (k : κ) : Option.Rel R (lookup k l) (lookup k l') := by
  induction h with
  | nil => exact .none
  | @cons a b _ _ hab _ ih =>
    rw [lookup, lookup, hab.1]
    split
    · exact .some hab.2
    · exact ih

theorem place_corresponds {l : List (κ × α)} {l' : List (κ × β)}
    (h : List.Forall₂ (Corresponds R) l l') {v : α} {w : β} (hvw : R v w) (k : κ) :
    List.Forall₂ (Corresponds R) (place k v l) (place k w l') := by
  induction h with
  | nil => exact .cons ⟨rfl, hvw⟩ .nil
  | @cons a b l l' hab hrest ih =>
    obtain ⟨k', v'⟩ := a
    obtain ⟨_, w'⟩ := b
    obtain ⟨rfl, hab⟩ := hab
    simp only [place]
    cases compare k k' with
    | lt => exact .cons ⟨rfl, hvw⟩ (.cons ⟨rfl, hab⟩ hrest)
    | eq => exact .cons ⟨rfl, hvw⟩ hrest
    | gt => exact .cons ⟨rfl, hab⟩ ih

theorem Related.get? (h : Related R m n) (k : κ) : Option.Rel R (m.get? k) (n.get? k) :=
  lookup_corresponds h k

theorem Related.insert [TransOrd κ] (h : Related R m n) {v : α} {w : β} (hvw : R v w) (k : κ) :
    Related R (m.insert k v) (n.insert k w) :=
  place_corresponds h hvw k

end

end OrderedMap

namespace OrderedSet

open Std

variable {α : Type} [Ord α] [TransOrd α]

theorem has_add (s : OrderedSet α) (a : α) : (s.add a).has a = true := by
  simp [has, add, OrderedMap.contains]

theorem has_remove (s : OrderedSet α) (a : α) : (s.remove a).has a = false := by
  simp [has, remove, OrderedMap.contains, OrderedMap.get?_erase]

variable [LawfulEqOrd α]

theorem mem_toList_add {s : OrderedSet α} {a b : α} :
    b ∈ (s.add a).toList ↔ b = a ∨ b ∈ s.toList := by
  simp only [toList, add, OrderedMap.mem_keys_iff]
  by_cases hb : b = a
  · subst hb; simp
  · rw [OrderedMap.get?_insert_of_ne s () hb]; simp [hb]

theorem remove_add (s : OrderedSet α) (a : α) : (s.add a).remove a = s.remove a :=
  OrderedMap.erase_insert s a ()

theorem remove_of_not_has {s : OrderedSet α} {a : α} (h : s.has a = false) : s.remove a = s :=
  OrderedMap.erase_of_get?_none (Option.not_isSome_iff_eq_none.1 (Bool.eq_false_iff.1 h))

end OrderedSet

end CommandChain
