import CommandChain.Proofs.Selector.Grouped
import CommandChain.Proofs.Value.Scanned

/-!
# Accepted selectors

What reading a selector guarantees (`Accepted`): it is a bare name, or its type is
registered and its arguments keep the rules of the registry (`check_of_build`).
-/

namespace CommandChain

namespace SelectorRegistry

theorem type?_withType (r : SelectorRegistry) (t : SelectorType) (name : String) :
    (r.withType t).type? name = if name = t.name then some t else r.type? name := by
  simp only [type?, withType, OrderedMap.get?_insert, Std.LawfulEqOrd.compare_eq_iff_eq]

theorem argument?_withArgument (r : SelectorRegistry) (spec : ArgumentSpec) (name : String) :
    (r.withArgument spec).argument? name = if name = spec.name then some spec
      else r.argument? name := by
  simp only [argument?, withArgument, OrderedMap.get?_insert, Std.LawfulEqOrd.compare_eq_iff_eq]

theorem type?_foldl_withArgument (specs : List ArgumentSpec) (r : SelectorRegistry)
    (name : String) :
    (specs.foldl withArgument r).type? name = r.type? name := by
  induction specs generalizing r with
  | nil => rfl
  | cons spec specs ih => exact ih (r.withArgument spec)

theorem mem_of_type?_foldl {types : List SelectorType} {r : SelectorRegistry} {name : String}
    {t : SelectorType} (h : (types.foldl withType r).type? name = some t) :
    t ∈ types ∨ r.type? name = some t := by
  induction types generalizing r with
  | nil => exact .inr h
  | cons t' types ih =>
    rcases ih h with hm | hr
    · exact .inl (.tail _ hm)
    · rw [type?_withType] at hr
      split at hr
      · cases hr; exact .inl List.mem_cons_self
      · exact .inr hr

theorem mem_standardTypes {name : String} {t : SelectorType} (h : standard.type? name = some t) :
    t ∈ standardTypes := by
  unfold standard at h
  rw [type?_foldl_withArgument] at h
  rcases mem_of_type?_foldl h with hm | hr
  · exact hm
  · cases hr

theorem argument?_mode : standard.argument? "m" =
    some ⟨"m", .union [.oneOf gameModeWords, .intOneOf gameModeNumbers], .invertedOnly, true⟩ := by
  cbv

theorem argument?_scores : standard.argument? "scores" =
    some ⟨"scores", .mapOf count, .never, false⟩ := by
  cbv

theorem argument?_count : standard.argument? "c" = some ⟨"c", .int, .never, false⟩ := by cbv

end SelectorRegistry

namespace Selector

theorem forM_eq_ok_iff {α : Type} {f : α → Except SelectorFault Unit} {l : List α} :
    l.forM f = .ok () ↔ ∀ a ∈ l, f a = .ok () := by
  induction l with
  | nil => simp [pure, Except.pure]
  | cons a l ih =>
    rw [List.forall_mem_cons, ← ih]
    change (f a >>= fun _ => l.forM f) = .ok () ↔ _
    cases hf : f a with
    | ok u => simp [bind, Except.bind]
    | error e => simp [bind, Except.bind]

theorem check_eq_ok_iff {registry : SelectorRegistry} {type : SelectorType} {e : Entry ArgValue} :
    check registry type e = .ok () ↔
      ∃ spec, registry.argument? e.key = some spec ∧ (e.inverted → spec.invertible) ∧
        spec.shape.matchesValue e.value ∧
        ¬ (e.key = "type" ∧ type.restriction.any (!·.overridable)) := by
  unfold check
  cases registry.argument? e.key with
  | none => simp
  | some spec =>
    simp only [Option.some.injEq, exists_eq_left']
    split
    · next hi => simp_all
    · next hi =>
      split
      · next hm => simp_all
      · next hm =>
        split
        · next ht => simp_all
        · next ht => simp_all

theorem build_eq_ok_iff {registry : SelectorRegistry} {type : SelectorType}
    {written : List (Entry ArgValue)} {s : Selector} :
    build registry type written = .ok s ↔
      (∀ e ∈ written, check registry type e = .ok ()) ∧
        duplicated? registry (grouped written) = none ∧ s = ⟨type, grouped written⟩ := by
  rw [← forM_eq_ok_iff]
  unfold build
  cases written.forM (check registry type) with
  | error e => simp [bind, Except.bind]
  | ok u =>
    simp only [bind, Except.bind, true_and]
    cases duplicated? registry (grouped written) with
    | none => simp [pure, Except.pure, eq_comm]
    | some key => simp [throw, throwThe, MonadExceptOf.throw]

/-- How a selector came to be read. -/
inductive Accepted (registry : SelectorRegistry) : Selector → Prop where
  | name (name : String) : Accepted registry (ofName name)
  | typed {name : String} {type : SelectorType} {written : List (Entry ArgValue)} {s : Selector} :
    (∀ c ∈ name.toList, isTypeChar c) → registry.type? name = some type →
      (∀ e ∈ written, ∃ t t', ArgValue.scan t = .ok e.value t') →
      build registry type written = .ok s → Accepted registry s

section

variable {registry : SelectorRegistry} {t t' : Scanner} {s : Selector}

theorem scanArguments_ok {written : List (Entry ArgValue)}
    (h : scanArguments t = .ok written t') :
    ∀ e ∈ written, ∃ t t', ArgValue.scan t = .ok e.value t' := by
  obtain ⟨c, t₁, _, h₁⟩ := bind_eq_ok_iff.1 h
  split at h₁
  · obtain ⟨_, t₂, _, h₂⟩ := bind_eq_ok_iff.1 h₁
    exact Scan.itemsThrough_forall ArgValue.entry_scan_ok h₂
  · cases h₁
    nofun

/-- A type name, and arguments that keep its rules. -/
theorem scanTyped_parts (h : scanTyped registry t = .ok s t') : ∃ name t₁ type written,
    Scan.takeWhile isTypeChar (t.advance 1) = .ok name t₁ ∧ registry.type? name = some type ∧
      scanArguments t₁ = .ok written t' ∧ build registry type written = .ok s := by
  obtain ⟨_, _, hnext, h⟩ := bind_eq_ok_iff.1 h
  cases hnext
  obtain ⟨name, t₁, hname, h⟩ := bind_eq_ok_iff.1 h
  cases htype : registry.type? name with
  | none => rw [htype] at h; cases h
  | some type =>
    rw [htype] at h
    obtain ⟨written, _, hwritten, h⟩ := bind_eq_ok_iff.1 h
    cases hb : build registry type written with
    | error fault => rw [hb] at h; cases h
    | ok s' =>
      rw [hb] at h
      cases h
      exact ⟨name, t₁, type, written, hname, htype, hwritten, hb⟩

theorem scanTyped_ok (h : scanTyped registry t = .ok s t') : Accepted registry s := by
  obtain ⟨name, t₁, type, written, hname, htype, hwritten, hb⟩ := scanTyped_parts h
  have hchars : ∀ c ∈ name.toList, isTypeChar c := by
    cases hname
    rw [String.toList_ofList]
    exact List.all_eq_true.1 List.all_takeWhile
  exact .typed hchars htype (scanArguments_ok hwritten) hb

theorem scan_ok (h : scan registry t = .ok s t') : Accepted registry s := by
  obtain ⟨c, s', _, h⟩ := bind_eq_ok_iff.1 h
  split at h
  · exact scanTyped_ok h
  · obtain ⟨name, _, _, h⟩ := bind_eq_ok_iff.1 h
    cases h
    exact .name name
  · cases h

theorem placed_eq_ok_iff {α : Type} {read : Scan α} {text : String} {a : α} :
    placed read text t = .ok a t' ↔ read t = .ok a t' := by
  unfold placed
  cases read t with
  | ok a' t₁ => rfl
  | error e t₁ =>
    dsimp only
    split <;> simp

/-- A whole text is a selector with blanks behind it. -/
theorem exists_scan_of_parse {text : String} (h : parse registry text = .ok s) :
    ∃ t, scan registry (.ofText ArgValue.lexicon text) = .ok s t ∧ t.lexicon.Blanks t.rest := by
  obtain ⟨_, h⟩ := Scan.run_eq_ok_iff.1 h
  obtain ⟨s', t, hs, h₁⟩ := bind_eq_ok_iff.1 h
  obtain ⟨_, t', hend, h₂⟩ := bind_eq_ok_iff.1 h₁
  cases h₂
  exact ⟨t, placed_eq_ok_iff.1 hs, (Scan.expectEnd_eq_ok_iff.1 hend).1⟩

theorem accepted_of_parse {text : String} (h : parse registry text = .ok s) :
    Accepted registry s := by
  obtain ⟨t, hscan, -⟩ := exists_scan_of_parse h
  exact scan_ok hscan

end

/-! ## Arguments -/

/-- Every argument of a selector kept the rules. -/
theorem check_of_build {registry : SelectorRegistry} {type : SelectorType}
    {written : List (Entry ArgValue)} {s : Selector} (h : build registry type written = .ok s)
    {key : String} {a : Argument} (ha : a ∈ s.get key) :
    check registry type ⟨key, a.inverted, a.value⟩ = .ok () := by
  obtain ⟨hc, _, rfl⟩ := build_eq_ok_iff.1 h
  rw [get_grouped, mem_occurrencesOf] at ha
  exact hc _ ha

theorem get_ofName (name key : String) :
    (ofName name).get key = if key = "name" then [⟨false, .text name⟩] else [] := by
  unfold ofName
  rw [get_grouped]
  by_cases hk : key = "name"
  · subst hk; rfl
  · simp [occurrencesOf, hk, Ne.symm hk]

end Selector

end CommandChain
