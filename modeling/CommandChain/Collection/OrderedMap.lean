/-!
# Finite maps in key order

An `OrderedMap` is a list of entries with strictly ascending keys, so two maps
with the same entries are equal and every listing comes out in key order.
`get?` is its view; `get?_insert`, `get?_erase` and `get?_modify` say what each
operation does to it. An `OrderedSet` is a map to `Unit`.
-/

namespace CommandChain

open Std

/-- Entries with strictly ascending keys. -/
structure OrderedMap (κ : Type) [Ord κ] (α : Type) where
  entries : List (κ × α)
  ascending : entries.Pairwise fun a b => compare a.1 b.1 = .lt

namespace OrderedMap

variable {κ α : Type} [Ord κ]

theorem eq_of_entries {m n : OrderedMap κ α} (h : m.entries = n.entries) : m = n := by
  cases m; cases n; cases h; rfl

def empty : OrderedMap κ α := ⟨[], .nil⟩

instance : EmptyCollection (OrderedMap κ α) := ⟨empty⟩

instance : Inhabited (OrderedMap κ α) := ⟨empty⟩

def isEmpty (m : OrderedMap κ α) : Bool := m.entries.isEmpty

def keys (m : OrderedMap κ α) : List κ := m.entries.map (·.1)

def values (m : OrderedMap κ α) : List α := m.entries.map (·.2)

/-- The value under `k` in a list of entries. -/
def lookup (k : κ) : List (κ × α) → Option α
  | [] => none
  | (k', v) :: rest => if compare k k' = .eq then some v else lookup k rest

def get? (m : OrderedMap κ α) (k : κ) : Option α := lookup k m.entries

def contains (m : OrderedMap κ α) (k : κ) : Bool := (m.get? k).isSome

/-- Puts `v` under `k` at its place in the order. -/
def place (k : κ) (v : α) : List (κ × α) → List (κ × α)
  | [] => [(k, v)]
  | (k', v') :: rest =>
    match compare k k' with
    | .lt => (k, v) :: (k', v') :: rest
    | .eq => (k, v) :: rest
    | .gt => (k', v') :: place k v rest

theorem mem_place {k : κ} {v : α} {l : List (κ × α)} {e : κ × α} (h : e ∈ place k v l) :
    e = (k, v) ∨ e ∈ l := by
  induction l with
  | nil => simpa [place] using h
  | cons hd tl ih =>
    simp only [place] at h
    split at h
    · simpa using h
    · rcases List.mem_cons.1 h with h | h
      · exact .inl h
      · exact .inr (.tail _ h)
    · rcases List.mem_cons.1 h with rfl | h
      · exact .inr (.head _)
      · exact (ih h).imp id (.tail _)

theorem place_ascending [TransOrd κ] {k : κ} {v : α} {l : List (κ × α)}
    (h : l.Pairwise fun a b => compare a.1 b.1 = .lt) :
    (place k v l).Pairwise fun a b => compare a.1 b.1 = .lt := by
  induction l with
  | nil => simp [place]
  | cons hd tl ih =>
    have ⟨hlow, htl⟩ := List.pairwise_cons.1 h
    simp only [place]
    split
    · next hk =>
      refine List.pairwise_cons.2 ⟨fun b hb => ?_, h⟩
      rcases List.mem_cons.1 hb with rfl | hb
      · exact hk
      · exact TransCmp.lt_trans hk (hlow b hb)
    · next hk =>
      exact List.pairwise_cons.2 ⟨fun b hb => TransCmp.lt_of_eq_of_lt hk (hlow b hb), htl⟩
    · next hk =>
      refine List.pairwise_cons.2 ⟨fun b hb => ?_, ih htl⟩
      rcases mem_place hb with rfl | hb
      · exact OrientedCmp.gt_iff_lt.1 hk
      · exact hlow b hb

def insert [TransOrd κ] (m : OrderedMap κ α) (k : κ) (v : α) : OrderedMap κ α :=
  ⟨place k v m.entries, place_ascending m.ascending⟩

def erase (m : OrderedMap κ α) (k : κ) : OrderedMap κ α :=
  ⟨m.entries.filter fun e => compare k e.1 != .eq, m.ascending.filter _⟩

/-- Applies `f` to the value under `k`, if there is one. -/
def modify (m : OrderedMap κ α) (k : κ) (f : α → α) : OrderedMap κ α :=
  ⟨m.entries.map fun e => if compare k e.1 = .eq then (e.1, f e.2) else e,
    (List.pairwise_map.2 (m.ascending.imp (by
      intro a b hab
      split <;> split <;> exact hab)))⟩

def ofList [TransOrd κ] (l : List (κ × α)) : OrderedMap κ α :=
  l.foldl (fun m e => m.insert e.1 e.2) ∅

@[simp] theorem get?_empty (k : κ) : (∅ : OrderedMap κ α).get? k = none := rfl

theorem lookup_place [TransOrd κ] (k k' : κ) (v : α) (l : List (κ × α)) :
    lookup k' (place k v l) = if compare k' k = .eq then some v else lookup k' l := by
  induction l with
  | nil => simp [place, lookup]
  | cons hd tl ih =>
    simp only [place]
    split
    · simp only [lookup]
    · next hk =>
      simp only [lookup, TransCmp.congr_right hk]
      split <;> rfl
    · next hk =>
      simp only [lookup, ih]
      split
      · next hc =>
        rw [if_neg]
        rw [TransCmp.congr_left hc, OrientedCmp.gt_iff_lt.1 hk]
        nofun
      · rfl

theorem get?_insert [TransOrd κ] (m : OrderedMap κ α) (k k' : κ) (v : α) :
    (m.insert k v).get? k' = if compare k' k = .eq then some v else m.get? k' :=
  lookup_place k k' v m.entries

@[simp] theorem get?_insert_self [TransOrd κ] (m : OrderedMap κ α) (k : κ) (v : α) :
    (m.insert k v).get? k = some v := by
  rw [get?_insert, if_pos ReflCmp.compare_self]

theorem get?_insert_of_ne [TransOrd κ] [LawfulEqOrd κ] (m : OrderedMap κ α) {k k' : κ} (v : α)
    (h : k' ≠ k) : (m.insert k v).get? k' = m.get? k' := by
  rw [get?_insert, if_neg fun hc => h (LawfulEqCmp.eq_of_compare hc)]

theorem lookup_filter [TransOrd κ] (k k' : κ) (l : List (κ × α)) :
    lookup k' (l.filter fun e => compare k e.1 != .eq) =
      if compare k' k = .eq then none else lookup k' l := by
  induction l with
  | nil => simp [lookup]
  | cons hd tl ih =>
    by_cases hk : compare k hd.1 = .eq
    · rw [List.filter_cons_of_neg (by simp [hk]), ih]
      simp only [lookup, ← TransCmp.congr_right hk]
      split <;> rfl
    · rw [List.filter_cons_of_pos (by simp [hk])]
      simp only [lookup, ih]
      split
      · next hc =>
        rw [if_neg]
        intro hkk
        exact hk (TransCmp.congr_left hkk ▸ hc)
      · rfl

theorem get?_erase [TransOrd κ] (m : OrderedMap κ α) (k k' : κ) :
    (m.erase k).get? k' = if compare k' k = .eq then none else m.get? k' :=
  lookup_filter k k' m.entries

theorem lookup_map [TransOrd κ] (k k' : κ) (f : α → α) (l : List (κ × α)) :
    lookup k' (l.map fun e => if compare k e.1 = .eq then (e.1, f e.2) else e) =
      if compare k' k = .eq then (lookup k' l).map f else lookup k' l := by
  induction l with
  | nil => simp [lookup]
  | cons hd tl ih =>
    simp only [List.map_cons]
    by_cases hk : compare k hd.1 = .eq
    · simp only [hk, if_true, lookup, ih, ← TransCmp.congr_right hk]
      split <;> simp_all
    · simp only [hk, if_false, lookup, ih]
      by_cases hc : compare k' k = .eq
      · rw [TransCmp.congr_left hc, if_neg hk, if_neg hk]
      · simp only [hc, if_false]

theorem get?_modify [TransOrd κ] (m : OrderedMap κ α) (k k' : κ) (f : α → α) :
    (m.modify k f).get? k' = if compare k' k = .eq then (m.get? k').map f else m.get? k' :=
  lookup_map k k' f m.entries

end OrderedMap

/-- A set listed in ascending order. -/
abbrev OrderedSet (α : Type) [Ord α] := OrderedMap α Unit

namespace OrderedSet

variable {α : Type} [Ord α]

def toList (s : OrderedSet α) : List α := s.keys

def has (s : OrderedSet α) (a : α) : Bool := OrderedMap.contains s a

def add [TransOrd α] (s : OrderedSet α) (a : α) : OrderedSet α := OrderedMap.insert s a ()

def remove (s : OrderedSet α) (a : α) : OrderedSet α := OrderedMap.erase s a

def ofList [TransOrd α] (l : List α) : OrderedSet α := l.foldl add ∅

end OrderedSet

end CommandChain
