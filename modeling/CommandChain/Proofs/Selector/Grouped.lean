import CommandChain.Proofs.Collection.OrderedMap
import CommandChain.Proofs.Value.Equality
import CommandChain.Selector.Parser
import Mathlib.Data.List.Induction

/-!
# Arguments by key

The arguments of a selector are grouped by key, each group in written order
(`get?_grouped`). Listing them and grouping them again changes nothing
(`grouped_occurrences`), and grouping equal arguments gives equal groups
(`grouped_related`). Arguments with different keys break no rule on how often one
may be written (`duplicated?_of_nodup`).
-/

namespace CommandChain.Selector

/-- The occurrences of a key, in written order. -/
def occurrencesOf (key : String) (written : List (Entry ArgValue)) : List Argument :=
  (written.filter (·.key = key)).map fun e => ⟨e.inverted, e.value⟩

theorem mem_occurrencesOf {key : String} {written : List (Entry ArgValue)} {a : Argument} :
    a ∈ occurrencesOf key written ↔ ⟨key, a.inverted, a.value⟩ ∈ written := by
  simp only [occurrencesOf, List.mem_map, List.mem_filter, decide_eq_true_eq]
  constructor
  · rintro ⟨e, ⟨he, rfl⟩, rfl⟩
    exact he
  · intro h
    exact ⟨_, ⟨h, rfl⟩, rfl⟩

theorem grouped_concat (written : List (Entry ArgValue)) (e : Entry ArgValue) :
    grouped (written ++ [e]) = addOccurrence (grouped written) e := by
  simp [grouped]

theorem get?_grouped (written : List (Entry ArgValue)) (key : String) :
    (grouped written).get? key =
      if occurrencesOf key written = [] then none else some (occurrencesOf key written) := by
  induction written using List.reverseRecOn with
  | nil => rfl
  | append_singleton written e ih =>
    rw [grouped_concat, addOccurrence, OrderedMap.get?_insert]
    by_cases hk : key = e.key
    · subst hk
      rw [if_pos Std.ReflOrd.compare_self, ih]
      by_cases hn : occurrencesOf e.key written = []
      · simp_all [occurrencesOf]
      · rw [if_neg hn, if_neg (by simp_all [occurrencesOf])]
        simp [occurrencesOf]
    · rw [if_neg (by rwa [Std.LawfulEqOrd.compare_eq_iff_eq]), ih]
      simp [occurrencesOf, Ne.symm hk]

theorem get_grouped (type : SelectorType) (written : List (Entry ArgValue)) (key : String) :
    get ⟨type, grouped written⟩ key = occurrencesOf key written := by
  simp only [get, get?_grouped]
  split <;> simp_all

/-! ## Listed and grouped again -/

theorem ne_nil_of_mem_grouped {written : List (Entry ArgValue)} {e : String × List Argument}
    (h : e ∈ (grouped written).entries) : e.2 ≠ [] := by
  obtain ⟨key, args⟩ := e
  rw [OrderedMap.mem_entries_iff, get?_grouped] at h
  split at h
  · cases h
  · next hne => cases h; exact hne

theorem mem_of_mem_occurrences {type : SelectorType} {written : List (Entry ArgValue)}
    {e : Entry ArgValue} (h : e ∈ occurrences ⟨type, grouped written⟩) : e ∈ written := by
  simp only [occurrences, List.mem_flatMap, List.mem_map] at h
  obtain ⟨⟨key, args⟩, hentry, a, ha, rfl⟩ := h
  rw [OrderedMap.mem_entries_iff, get?_grouped] at hentry
  split at hentry
  · cases hentry
  · cases hentry; exact mem_occurrencesOf.1 ha

/-- Among listed groups, the occurrences of a key are those of its own group. -/
theorem occurrencesOf_flatMap {l : List (String × List Argument)}
    (hl : (l.map (·.1)).Nodup) (key : String) :
    occurrencesOf key (l.flatMap fun e => e.2.map fun a => ⟨e.1, a.inverted, a.value⟩) =
      (OrderedMap.lookup key l).getD [] := by
  induction l with
  | nil => rfl
  | cons e l ih =>
    obtain ⟨hnotMem, hl⟩ := List.nodup_cons.1 hl
    have ih := ih hl
    rw [List.flatMap_cons, occurrencesOf, List.filter_append, List.map_append]
    by_cases hk : key = e.1
    · subst hk
      have hnone : OrderedMap.lookup e.1 l = none := by
        cases hlookup : OrderedMap.lookup e.1 l with
        | none => rfl
        | some args =>
          exact absurd (List.mem_map_of_mem (OrderedMap.mem_of_lookup hlookup)) hnotMem
      rw [hnone] at ih
      rw [occurrencesOf] at ih
      rw [ih, OrderedMap.lookup, if_pos Std.ReflOrd.compare_self]
      simp [List.filter_map, Function.comp_def]
    · have hcompare : ¬ compare key e.1 = .eq := by rwa [Std.LawfulEqOrd.compare_eq_iff_eq]
      rw [OrderedMap.lookup, if_neg hcompare, ← ih]
      simp [occurrencesOf, List.filter_map, Function.comp_def, Ne.symm hk]

theorem grouped_occurrences {s : Selector} (h : ∀ e ∈ s.arguments.entries, e.2 ≠ []) :
    grouped s.occurrences = s.arguments := by
  refine OrderedMap.eq_of_get? fun key => ?_
  have hkey : occurrencesOf key s.occurrences = s.get key :=
    occurrencesOf_flatMap s.arguments.nodup_keys key
  rw [get?_grouped, hkey, get]
  cases hget : s.arguments.get? key with
  | none => rfl
  | some args =>
    have hne := h (key, args) (OrderedMap.mem_entries_iff.2 hget)
    rw [Option.getD_some, if_neg hne]

/-! ## Equal arguments -/

/-- Equal occurrences, in the same order. -/
def Same : List Argument → List Argument → Prop := List.Forall₂ fun a b => a == b

theorem same_getD {a b : Option (List Argument)} (h : Option.Rel Same a b) :
    Same (a.getD []) (b.getD []) := by
  cases h with
  | some h => exact h
  | none => exact .nil

theorem addOccurrence_related {groups' groups : OrderedMap String (List Argument)}
    (h : groups'.Related Same groups) {e' e : Entry ArgValue} (he : e'.Alike e) :
    (addOccurrence groups' e').Related Same (addOccurrence groups e) := by
  have hlast : (⟨e'.inverted, e'.value⟩ : Argument) == ⟨e.inverted, e.value⟩ :=
    Bool.and_eq_true_iff.2 ⟨beq_iff_eq.2 he.inverted, he.value⟩
  rw [addOccurrence, addOccurrence, he.key]
  exact h.insert (List.rel_append (same_getD (h.get? e.key)) (.cons hlast .nil)) e.key

theorem grouped_related {written' written : List (Entry ArgValue)}
    (h : List.Forall₂ Entry.Alike written' written) :
    (grouped written').Related Same (grouped written) := by
  have hempty : (∅ : OrderedMap String (List Argument)).Related Same ∅ := List.Forall₂.nil
  exact List.rel_foldl (P := OrderedMap.Related Same) (R := Entry.Alike)
    (fun _ _ hgroups _ _ he => addOccurrence_related hgroups he) hempty h

theorem beq_of_forall₂ {α : Type} [BEq α] {l' l : List α}
    (h : List.Forall₂ (fun a' a => a' == a) l' l) : l' == l := by
  induction h with
  | nil => rfl
  | cons ha _ ih => exact Bool.and_eq_true_iff.2 ⟨ha, ih⟩

theorem beq_of_related {groups' groups : OrderedMap String (List Argument)}
    (h : groups'.Related Same groups) : groups'.entries == groups.entries := by
  refine beq_of_forall₂ (List.Forall₂.imp (fun e' e he => ?_) h)
  exact Bool.and_eq_true_iff.2 ⟨beq_iff_eq.2 he.1, beq_of_forall₂ he.2⟩

theorem inverted_eq_of_same {args' args : List Argument} (h : Same args' args) :
    args'.map (·.inverted) = args.map (·.inverted) := by
  induction h with
  | nil => rfl
  | cons ha _ ih =>
    rw [List.map_cons, List.map_cons, ih, beq_iff_eq.1 (Bool.and_eq_true_iff.1 ha).1]

/-- Whether a key occurs too often is a matter of keys and inversions. -/
theorem duplicated?_congr (registry : SelectorRegistry)
    {groups' groups : OrderedMap String (List Argument)} (h : groups'.Related Same groups) :
    duplicated? registry groups' = duplicated? registry groups := by
  unfold duplicated?
  unfold OrderedMap.Related at h
  generalize groups'.entries = l' at h ⊢
  generalize groups.entries = l at h ⊢
  induction h with
  | nil => rfl
  | @cons e' e l' l he _ ih =>
    obtain ⟨key, args'⟩ := e'
    obtain ⟨_, args⟩ := e
    obtain ⟨rfl, hargs⟩ := he
    rw [List.find?_cons, List.find?_cons]
    dsimp only
    rw [inverted_eq_of_same hargs]
    cases (registry.argument? key).any fun spec =>
      spec.duplication.violated (args.map (·.inverted)) with
    | true => rfl
    | false => exact ih

/-! ## Arguments written once -/

theorem violated_of_length_le {flags : List Bool} (h : flags.length ≤ 1) (d : Duplication) :
    d.violated flags = false := by
  have hcount : flags.count false ≤ 1 := List.count_le_length.trans h
  cases d with
  | never => exact decide_eq_false (by omega)
  | invertedOnly => exact decide_eq_false (by omega)
  | always => rfl

theorem length_occurrencesOf_le {written : List (Entry ArgValue)}
    (h : (written.map (·.key)).Nodup) (key : String) : (occurrencesOf key written).length ≤ 1 := by
  have hcount : (written.map (·.key)).count key ≤ 1 := List.nodup_iff_count_le_one.1 h key
  rw [List.count, List.countP_map, List.countP_eq_length_filter] at hcount
  rw [occurrencesOf, List.length_map]
  exact hcount

/-- Of arguments that are written once none occurs too often. -/
theorem duplicated?_of_nodup (registry : SelectorRegistry) {written : List (Entry ArgValue)}
    (h : (written.map (·.key)).Nodup) : duplicated? registry (grouped written) = none := by
  unfold duplicated?
  rw [Option.map_eq_none_iff, List.find?_eq_none]
  rintro ⟨key, args⟩ he
  rw [OrderedMap.mem_entries_iff] at he
  obtain rfl : occurrencesOf key written = args := by
    rw [get?_grouped] at he
    split at he
    · cases he
    · exact Option.some.inj he
  have hflags : ((occurrencesOf key written).map (·.inverted)).length ≤ 1 := by
    rw [List.length_map]
    exact length_occurrencesOf_le h key
  cases hs : registry.argument? key with
  | none => simp [hs]
  | some spec => simp [hs, violated_of_length_le hflags]

end CommandChain.Selector
