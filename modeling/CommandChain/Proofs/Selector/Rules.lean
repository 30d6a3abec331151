import CommandChain.Proofs.Selector.Accepted
import CommandChain.Proofs.Value.Shape

/-!
# The rules of a registry

`Abides` lists the rules that the arguments of a selector have to keep, and `Broken` says
of every fault which rule is broken and by what. `Selector.build` looks at each argument
alone first and at the groups of one key afterwards; together it accepts exactly what
abides by the rules (`build_abides`).

The rules on repetition speak of any two arguments, where a group is counted. The two
agree because a filtered list has at most one member exactly if no two members of the
list pass the filter (`length_filter_le_one_iff`).
-/

namespace CommandChain.Selector

/-- The written arguments keep the rules. -/
structure Abides (registry : SelectorRegistry) (type : SelectorType)
    (written : List (Entry ArgValue)) : Prop where
  registered : ∀ e ∈ written, ∃ spec, registry.argument? e.key = some spec
  invertible : ∀ e ∈ written, ∀ spec, registry.argument? e.key = some spec →
    e.inverted → spec.invertible
  fitting : ∀ e ∈ written, ∀ spec, registry.argument? e.key = some spec →
    spec.shape.Fits e.value
  /-- The entity type is not written where the selector type fixes it. -/
  typeFree : ∀ e ∈ written, e.key = "type" → ∀ r, type.restriction = some r → r.overridable
  once : written.Pairwise fun a b => a.key = b.key →
    ∀ spec, registry.argument? a.key = some spec → spec.duplication ≠ .never
  oncePositive : written.Pairwise fun a b => a.key = b.key →
    a.inverted = false → b.inverted = false →
    ∀ spec, registry.argument? a.key = some spec → spec.duplication ≠ .invertedOnly

/-- The written arguments break the rule that a fault is about. -/
inductive Broken (registry : SelectorRegistry) (type : SelectorType)
    (written : List (Entry ArgValue)) : SelectorFault → Prop where
  | unregistered {e : Entry ArgValue} : e ∈ written → registry.argument? e.key = none →
    Broken registry type written (.unknownArgument e.key)
  | inverted {e : Entry ArgValue} {spec : ArgumentSpec} : e ∈ written →
    registry.argument? e.key = some spec → e.inverted = true → spec.invertible = false →
    Broken registry type written (.notInvertible e.key)
  | misfit {e : Entry ArgValue} {spec : ArgumentSpec} : e ∈ written →
    registry.argument? e.key = some spec → ¬ spec.shape.Fits e.value →
    Broken registry type written (.shapeMismatch e.key (toString e.value))
  | fixedType {e : Entry ArgValue} {r : TypeRestriction} : e ∈ written → e.key = "type" →
    type.restriction = some r → r.overridable = false →
    Broken registry type written (.typeRestricted type.name)
  | twice {a b : Entry ArgValue} {spec : ArgumentSpec} : [a, b].Sublist written → a.key = b.key →
    registry.argument? a.key = some spec → spec.duplication = .never →
    Broken registry type written (.duplicated a.key)
  | twicePositive {a b : Entry ArgValue} {spec : ArgumentSpec} : [a, b].Sublist written →
    a.key = b.key → a.inverted = false → b.inverted = false →
    registry.argument? a.key = some spec → spec.duplication = .invertedOnly →
    Broken registry type written (.duplicated a.key)

variable {registry : SelectorRegistry} {type : SelectorType} {written : List (Entry ArgValue)}

/-! ## Arguments alone -/

theorem fixed_iff : type.restriction.any (!·.overridable) ↔
    ∃ r, type.restriction = some r ∧ r.overridable = false := by
  rw [Option.any_eq_true]
  simp only [Bool.not_eq_true']

theorem check_broken {e : Entry ArgValue} {fault : SelectorFault} (he : e ∈ written)
    (h : check registry type e = .error fault) : Broken registry type written fault := by
  unfold check at h
  cases hspec : registry.argument? e.key with
  | none => rw [hspec] at h; cases h; exact .unregistered he hspec
  | some spec =>
    rw [hspec] at h
    dsimp only at h
    split at h
    · next hi =>
      obtain ⟨hinverted, hspecial⟩ := Bool.and_eq_true_iff.1 hi
      cases h
      exact .inverted he hspec hinverted ((Bool.not_eq_true' _).mp hspecial)
    · split at h
      · next hm =>
        cases h
        refine .misfit he hspec fun hfits => ?_
        rw [(Shape.matchesValue_iff _ _).2 hfits] at hm
        cases hm
      · split at h
        · next ht =>
          obtain ⟨hkey, hfixed⟩ := Bool.and_eq_true_iff.1 ht
          obtain ⟨r, hr, hover⟩ := fixed_iff.1 hfixed
          cases h
          exact .fixedType he (beq_iff_eq.1 hkey) hr hover
        · cases h

theorem forM_broken {l : List (Entry ArgValue)} {fault : SelectorFault} (hl : l ⊆ written)
    (h : l.forM (check registry type) = .error fault) : Broken registry type written fault := by
  induction l with
  | nil => cases h
  | cons e l ih =>
    obtain ⟨he, hl⟩ := List.cons_subset.1 hl
    change (check registry type e >>= fun _ => l.forM (check registry type)) = .error fault at h
    cases hc : check registry type e with
    | ok u => rw [hc] at h; exact ih hl h
    | error e' => rw [hc] at h; cases h; exact check_broken he hc

/-! ## Repetition -/

section

variable {α : Type} {p : α → Bool} {l : List α}

theorem length_filter_le_one_iff :
    (l.filter p).length ≤ 1 ↔ l.Pairwise fun a b => ¬ (p a ∧ p b) := by
  have hpairs : ∀ k : List α, k.length ≤ 1 ↔ k.Pairwise fun _ _ => False
    | [] => by simp
    | [a] => by simp
    | a :: b :: k => by
      refine iff_of_false (by simp) fun h => ?_
      exact List.rel_of_pairwise_cons h List.mem_cons_self
  rw [hpairs, List.pairwise_filter]
  simp only [not_and]

theorem exists_pair_of_filter (h : 1 < (l.filter p).length) :
    ∃ a b, [a, b].Sublist l ∧ p a ∧ p b := by
  match hf : l.filter p, h with
  | a :: b :: rest, _ =>
    have hsub : [a, b].Sublist (l.filter p) :=
      hf ▸ List.Sublist.cons_cons a (List.Sublist.cons_cons b (List.nil_sublist rest))
    have hp : ∀ c ∈ [a, b], p c := fun c hc => (List.mem_filter.1 (hsub.subset hc)).2
    exact ⟨a, b, hsub.trans List.filter_sublist, hp a (by simp), hp b (by simp)⟩

end

/-- An occurrence that may not be written beside another such. -/
def limitedBy : Duplication → Entry ArgValue → Bool
  | .never, _ => true
  | .invertedOnly, e => !e.inverted
  | .always, _ => false

/-- A key occurs too often if two of the occurrences that count are written. -/
theorem violated_iff (d : Duplication) (key : String) (written : List (Entry ArgValue)) :
    d.violated ((occurrencesOf key written).map (·.inverted)) ↔
      1 < (written.filter fun e => e.key = key && limitedBy d e).length := by
  unfold occurrencesOf
  cases d with
  | never => simp [Duplication.violated, limitedBy]
  | invertedOnly =>
    rw [Duplication.violated, decide_eq_true_eq, List.map_map, List.count, List.countP_map,
      List.countP_filter, List.countP_eq_length_filter]
    refine iff_of_eq (congrArg (1 < List.length ·) (List.filter_congr fun e _ => ?_))
    simp [limitedBy, Bool.and_comm]
  | always => simp [Duplication.violated, limitedBy]

theorem violated_of_duplicated? {key : String}
    (h : duplicated? registry (grouped written) = some key) :
    ∃ spec, registry.argument? key = some spec ∧
      spec.duplication.violated ((occurrencesOf key written).map (·.inverted)) := by
  unfold duplicated? at h
  obtain ⟨⟨_, args⟩, hfind, rfl⟩ := Option.map_eq_some_iff.1 h
  have hmem := List.mem_of_find?_eq_some hfind
  have hany := List.find?_some hfind
  obtain ⟨spec, hspec, hviolated⟩ := (Option.any_eq_true _ _).1 hany
  rw [OrderedMap.mem_entries_iff, get?_grouped] at hmem
  split at hmem
  · cases hmem
  · cases hmem; exact ⟨spec, hspec, hviolated⟩

theorem duplicated?_eq_none_iff :
    duplicated? registry (grouped written) = none ↔
      ∀ key spec, registry.argument? key = some spec →
        ¬ spec.duplication.violated ((occurrencesOf key written).map (·.inverted)) := by
  constructor
  · intro h key spec hspec hviolated
    by_cases hempty : occurrencesOf key written = []
    · have hlength : ((occurrencesOf key written).map (·.inverted)).length ≤ 1 := by
        rw [hempty]
        exact Nat.zero_le 1
      rw [violated_of_length_le hlength] at hviolated
      cases hviolated
    · have hentry : (key, occurrencesOf key written) ∈ (grouped written).entries := by
        rw [OrderedMap.mem_entries_iff, get?_grouped, if_neg hempty]
      unfold duplicated? at h
      rw [Option.map_eq_none_iff, List.find?_eq_none] at h
      exact h _ hentry ((Option.any_eq_true _ _).2 ⟨spec, hspec, hviolated⟩)
  · intro h
    cases hdup : duplicated? registry (grouped written) with
    | none => rfl
    | some key =>
      obtain ⟨spec, hspec, hviolated⟩ := violated_of_duplicated? hdup
      exact absurd hviolated (h key spec hspec)

/-- No key occurs too often exactly if the rules on repetition are kept. -/
theorem duplicated?_eq_none_iff_pairwise :
    duplicated? registry (grouped written) = none ↔
      written.Pairwise fun a b => a.key = b.key → ∀ spec, registry.argument? a.key = some spec →
        ¬ (limitedBy spec.duplication a ∧ limitedBy spec.duplication b) := by
  simp only [duplicated?_eq_none_iff, violated_iff, Nat.not_lt, length_filter_le_one_iff,
    Bool.and_eq_true, decide_eq_true_eq]
  constructor
  · intro h
    refine List.pairwise_iff_forall_sublist.2 fun {a b} hab hkey spec hspec hboth => ?_
    exact List.pairwise_iff_forall_sublist.1 (h a.key spec hspec) hab
      ⟨⟨rfl, hboth.1⟩, hkey.symm, hboth.2⟩
  · intro h key spec hspec
    refine h.imp fun {a b} hab hboth => ?_
    obtain ⟨⟨rfl, ha⟩, hkey, hb⟩ := hboth
    exact hab hkey.symm spec hspec ⟨ha, hb⟩

theorem duplicated?_broken {key : String}
    (h : duplicated? registry (grouped written) = some key) :
    Broken registry type written (.duplicated key) := by
  obtain ⟨spec, hspec, hviolated⟩ := violated_of_duplicated? h
  obtain ⟨a, b, hab, ha, hb⟩ := exists_pair_of_filter ((violated_iff _ _ _).1 hviolated)
  simp only [Bool.and_eq_true, decide_eq_true_eq] at ha hb
  obtain ⟨rfl, ha⟩ := ha
  obtain ⟨hkey, hb⟩ := hb
  cases hd : spec.duplication with
  | never => exact .twice hab hkey.symm hspec hd
  | invertedOnly =>
    rw [hd] at ha hb
    exact .twicePositive hab hkey.symm ((Bool.not_eq_true' _).mp ha) ((Bool.not_eq_true' _).mp hb) hspec hd
  | always => rw [hd] at ha; cases ha

/-! ## Selectors -/

theorem abides_iff : Abides registry type written ↔
    (∀ e ∈ written, check registry type e = .ok ()) ∧
      duplicated? registry (grouped written) = none := by
  simp only [check_eq_ok_iff, duplicated?_eq_none_iff_pairwise, fixed_iff, Shape.matchesValue_iff]
  constructor
  · intro h
    refine ⟨fun e he => ?_, (h.once.and h.oncePositive).imp fun {a b} hab hkey spec hspec hboth => ?_⟩
    · obtain ⟨spec, hspec⟩ := h.registered e he
      refine ⟨spec, hspec, h.invertible e he spec hspec, h.fitting e he spec hspec, ?_⟩
      rintro ⟨hkey, r, hr, hover⟩
      rw [h.typeFree e he hkey r hr] at hover
      cases hover
    · cases hd : spec.duplication with
      | never => exact hab.1 hkey spec hspec hd
      | invertedOnly =>
        rw [hd] at hboth
        exact hab.2 hkey ((Bool.not_eq_true' _).mp hboth.1) ((Bool.not_eq_true' _).mp hboth.2) spec hspec hd
      | always => rw [hd] at hboth; cases hboth.1
  · rintro ⟨hcheck, hpairs⟩
    refine ⟨fun e he => ?_, fun e he spec hspec hi => ?_, fun e he spec hspec => ?_,
      fun e he hkey r hr => ?_, hpairs.imp fun {a b} hab hkey spec hspec hd => ?_,
      hpairs.imp fun {a b} hab hkey ha hb spec hspec hd => ?_⟩
    · obtain ⟨spec, hspec, _⟩ := hcheck e he
      exact ⟨spec, hspec⟩
    · obtain ⟨spec', hspec', hinvertible, _⟩ := hcheck e he
      cases hspec.symm.trans hspec'
      exact hinvertible hi
    · obtain ⟨spec', hspec', _, hfits, _⟩ := hcheck e he
      cases hspec.symm.trans hspec'
      exact hfits
    · obtain ⟨_, _, _, _, hfree⟩ := hcheck e he
      by_contra hover
      exact hfree ⟨hkey, r, hr, Bool.not_eq_true _ ▸ hover⟩
    · exact hab hkey spec hspec (by simp [hd, limitedBy])
    · exact hab hkey spec hspec (by simp [hd, limitedBy, ha, hb])

theorem build_error_broken {fault : SelectorFault} (h : build registry type written = .error fault) :
    Broken registry type written fault := by
  unfold build at h
  cases hf : written.forM (check registry type) with
  | error e =>
    rw [hf] at h
    cases h
    exact forM_broken (List.Subset.refl written) hf
  | ok u =>
    rw [hf] at h
    cases hd : duplicated? registry (grouped written) with
    | some key => simp only [hd] at h; cases h; exact duplicated?_broken hd
    | none => simp only [hd] at h; cases h

/-- Written arguments are accepted exactly if they keep the rules of the registry. The
selector then has the type, and of every key the occurrences in written order. Otherwise
the fault names a rule that is broken, and the argument or the type that breaks it. -/
theorem build_abides (registry : SelectorRegistry) (type : SelectorType)
    (written : List (Entry ArgValue)) :
    ((∃ s, build registry type written = .ok s) ↔ Abides registry type written) ∧
    (∀ s, build registry type written = .ok s →
      s.type = type ∧ ∀ key, s.get key =
        (written.filter (·.key = key)).map fun e => ⟨e.inverted, e.value⟩) ∧
    ∀ fault, build registry type written = .error fault → Broken registry type written fault := by
  refine ⟨?_, fun s h => ?_, fun fault h => build_error_broken h⟩
  · rw [abides_iff]
    constructor
    · rintro ⟨s, h⟩
      obtain ⟨hcheck, hd, _⟩ := build_eq_ok_iff.1 h
      exact ⟨hcheck, hd⟩
    · rintro ⟨hcheck, hd⟩
      exact ⟨_, build_eq_ok_iff.2 ⟨hcheck, hd, rfl⟩⟩
  · obtain ⟨_, _, rfl⟩ := build_eq_ok_iff.1 h
    exact ⟨rfl, get_grouped type written⟩

/-- Modes and tags in turn, and a second mode that is not inverted. -/
theorem build_abides_modes :
    let type := SelectorType.plain "e" .nearest
    let written : List (Entry ArgValue) := [⟨"tag", true, .text "a"⟩, ⟨"m", false, .text "c"⟩,
      ⟨"tag", false, .text "b"⟩, ⟨"m", true, .int 0⟩]
    let again := written ++ [⟨"m", false, .text "s"⟩]
    (∃ s, build .standard type written = .ok s ∧ Abides .standard type written ∧
      s.type = type ∧ s.get "tag" = [⟨true, .text "a"⟩, ⟨false, .text "b"⟩] ∧
      s.get "m" = [⟨false, .text "c"⟩, ⟨true, .int 0⟩]) ∧
    build .standard type again = .error (.duplicated "m") ∧
      Broken .standard type again (.duplicated "m") ∧ ¬ Abides .standard type again := by
  intro type written again
  have haccepted : (build .standard type written).isOk := by decide +kernel
  have hrefused : Except.casesOn (motive := fun _ => Option SelectorFault)
      (build .standard type again) some (fun _ => none) = some (.duplicated "m") := by
    decide +kernel
  obtain ⟨hiff, hok, -⟩ := build_abides .standard type written
  obtain ⟨hiff', -, herror⟩ := build_abides .standard type again
  constructor
  · cases h : build .standard type written with
    | error fault => rw [h] at haccepted; cases haccepted
    | ok s =>
      obtain ⟨htype, hget⟩ := hok s h
      exact ⟨s, rfl, hiff.1 ⟨s, h⟩, htype, hget "tag", hget "m"⟩
  · cases h : build .standard type again with
    | ok s => rw [h] at hrefused; cases hrefused
    | error fault =>
      rw [h] at hrefused
      cases hrefused
      refine ⟨rfl, herror _ h, fun hall => ?_⟩
      obtain ⟨s, hs⟩ := hiff'.2 hall
      rw [hs] at h
      cases h

end CommandChain.Selector
