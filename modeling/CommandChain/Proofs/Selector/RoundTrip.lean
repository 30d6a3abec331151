import CommandChain.Proofs.Selector.Accepted
import CommandChain.Proofs.Value.RoundTrip

/-!
# Selectors read back

The text of a selector that was read is read as a selector equal to it
(`parse_toString`). Keys are written as they are, so a registry has to name its
arguments with words (`SelectorRegistry.Named`).
-/

namespace CommandChain

open Scan

/-- A non-empty run of letters, digits and underscores. -/
def IsWord (name : String) : Prop := name ≠ "" ∧ name.toList.all Selector.isTypeChar

instance (name : String) : Decidable (IsWord name) := inferInstanceAs (Decidable (_ ∧ _))

namespace SelectorRegistry

/-- The types of the registry have names, and its arguments are named by words. -/
inductive Named : SelectorRegistry → Prop where
  | empty : Named empty
  | withType {r : SelectorRegistry} {t : SelectorType} : Named r → t.name ≠ "" →
    Named (r.withType t)
  | withArgument {r : SelectorRegistry} {spec : ArgumentSpec} : Named r → IsWord spec.name →
    Named (r.withArgument spec)

theorem Named.type_name {r : SelectorRegistry} (h : r.Named) {name : String} {t : SelectorType}
    (ht : r.type? name = some t) : t.name = name ∧ name ≠ "" := by
  induction h with
  | empty => cases ht
  | withType _ hname ih =>
    rw [type?_withType] at ht
    split at ht
    · next hn => cases ht; exact ⟨hn.symm, hn ▸ hname⟩
    · exact ih ht
  | withArgument _ _ ih => exact ih ht

theorem Named.isWord {r : SelectorRegistry} (h : r.Named) {name : String} {spec : ArgumentSpec}
    (hs : r.argument? name = some spec) : IsWord name := by
  induction h with
  | empty => cases hs
  | withType _ _ ih => exact ih hs
  | withArgument _ hname ih =>
    rw [argument?_withArgument] at hs
    split at hs
    · next hn => rw [hn]; exact hname
    · exact ih hs

theorem Named.withTypes {r : SelectorRegistry} (h : r.Named) {types : List SelectorType}
    (ht : ∀ t ∈ types, t.name ≠ "") : (types.foldl SelectorRegistry.withType r).Named := by
  induction types generalizing r with
  | nil => exact h
  | cons t types ih =>
    exact ih (h.withType (ht t List.mem_cons_self)) fun t' ht' => ht t' (.tail _ ht')

theorem Named.withArguments {r : SelectorRegistry} (h : r.Named) {specs : List ArgumentSpec}
    (hs : ∀ spec ∈ specs, IsWord spec.name) :
    (specs.foldl SelectorRegistry.withArgument r).Named := by
  induction specs generalizing r with
  | nil => exact h
  | cons spec specs ih =>
    exact ih (h.withArgument (hs spec List.mem_cons_self)) fun spec' h' => hs spec' (.tail _ h')

theorem named_standard : standard.Named :=
  (Named.empty.withTypes (by decide)).withArguments (by decide)

end SelectorRegistry

namespace Selector

open ArgValue (lexicon Ends Plain ReadsAsKey EntryReadsAs occurrenceTokens)

/-! ## Texts -/

/-- The tokens of an argument. -/
def argumentTokens (e : Entry ArgValue) : List (List Char) :=
  occurrenceTokens e.key.toList e.inverted e.value.tokens

/-- The tokens of the arguments, in brackets if there are any. -/
def argumentsTokens (s : Selector) : List (List Char) :=
  if s.arguments.isEmpty then []
  else ['['] :: (joined (s.occurrences.map argumentTokens) ++ [[']']])

theorem flatten_argumentTokens (e : Entry ArgValue) :
    (argumentTokens e).flatten = (occurrenceText e).toList := by
  unfold argumentTokens occurrenceTokens occurrenceText
  have hvalue : (toString e.value).toList = e.value.tokens.flatten :=
    (ArgValue.flatten_tokens e.value).symm
  cases e.inverted <;> simp [hvalue]

theorem toList_typedText (s : Selector) : s.typedText.toList =
    '@' :: (s.type.name.toList ++ s.argumentsTokens.flatten) := by
  unfold typedText argumentsTokens
  split
  · simp
  · rw [List.flatten_cons, List.flatten_append, flatten_joined]
    simp [String.toList_intercalate, flatten_argumentTokens, Function.comp_def]

/-! ## Reading -/

theorem plain_of_isWord {name : String} (h : IsWord name) : ∀ c ∈ name.toList, Plain c :=
  fun c hc => ArgValue.plain_of (by decide) (List.all_eq_true.1 h.2 c hc)

theorem ne_nil_of_isWord {name : String} (h : IsWord name) : name.toList ≠ [] :=
  fun hs => h.1 (String.toList_eq_nil_iff.1 hs)

/-- A word is a key as it stands. -/
theorem readsAsKey_of_isWord {stops : List Char} (hstops : stops ⊆ ArgValue.quoteTriggers)
    {name : String} (h : IsWord name) : ReadsAsKey stops name.toList name where
  head := by
    cases hs : name.toList with
    | nil => exact absurd hs (ne_nil_of_isWord h)
    | cons c rest =>
      have hc := plain_of_isWord h c (by rw [hs]; exact List.mem_cons_self)
      have hmarks : [']', '}'] ⊆ ArgValue.quoteTriggers := by decide
      exact ⟨c, rest, rfl, hc.1, fun hm => hc.2 (hmarks hm)⟩
  reads b follow hb hend := by
    have hread :=
      ArgValue.reads_string_plain hb hstops hend (ne_nil_of_isWord h) (plain_of_isWord h)
    rwa [String.ofList_toList] at hread

section

variable {registry : SelectorRegistry} {written : List (Entry ArgValue)} {s : Selector}
  {text follow : List Char}

theorem reads_scanArguments {parts : List (List (List Char))}
    (h : List.Forall₂ (EntryReadsAs ['=', ',', ']']) parts written)
    (ht : Spaced lexicon (joined parts ++ [[']']]) text) :
    Reads lexicon scanArguments ('[' :: text) follow written := by
  have hitems : List.Forall₂ (ReadsItem lexicon (Entry.scan ['=', ',', ']'] ArgValue.scan) ']'
      Ends (text ++ follow).length) parts written :=
    h.imp fun _ _ hpart => hpart.item (fun hread _ => hread) (by decide) (by decide)
  have hrest : Reads lexicon
      (itemsThrough (Entry.scan ['=', ',', ']'] ArgValue.scan) "]") text follow written :=
    reads_itemsThrough rfl (by decide) (by decide) (by decide)
      (ArgValue.ends_of_mark (by decide)) hitems ht (Nat.le_refl _)
  have hnext : Reads lexicon (next false) ['['] (text ++ follow) (some '[') := reads_next '['
  exact reads_peek_false.bind_nil (hnext.bind hrest)

theorem reads_scanArguments_none (h : ∀ c ∈ follow.head?, c ≠ '[') :
    Reads lexicon scanArguments [] follow [] := by
  refine reads_peek_false.bind_nil ?_
  rw [List.nil_append, if_neg]
  · exact reads_pure []
  · intro hc
    exact h '[' (beq_iff_eq.1 hc) rfl

/-- A type and arguments that keep the rules. -/
theorem reads_typed {name : String} {type : SelectorType} (hname : ∀ c ∈ name.toList, isTypeChar c)
    (htype : registry.type? name = some type)
    (hend : ∀ c ∈ (text ++ follow).head?, isTypeChar c = false)
    (hargs : Reads lexicon scanArguments text follow written)
    (hbuild : build registry type written = .ok s) :
    Reads lexicon (scan registry) ('@' :: (name.toList ++ text)) follow s := by
  have hpeek : Reads lexicon (peek true) [] ('@' :: (name.toList ++ text) ++ follow) (some '@') :=
    reads_peek (lexicon.margin_nil true) fun _ c hc => by cases hc; decide
  have hnext : Reads lexicon (next false) ['@'] (name.toList ++ text ++ follow) (some '@') :=
    reads_next '@'
  have hword : Reads lexicon (takeWhile isTypeChar) name.toList (text ++ follow) name := by
    have hread : Reads lexicon (takeWhile isTypeChar) name.toList (text ++ follow)
        (String.ofList name.toList) :=
      reads_takeWhile hname hend
    rwa [String.ofList_toList] at hread
  refine hpeek.bind_nil (hnext.bind (hword.bind ?_))
  rw [htype]
  refine hargs.bind_pure ?_
  rw [hbuild]
  exact reads_pure s

/-- A bare name is quoted where it would be taken for something else. -/
theorem reads_name (name : String) :
    Reads lexicon (scan registry) (ArgValue.quoteText name).toList [] (ofName name) := by
  have hread : Reads lexicon (Scan.string []) ([] ++ (ArgValue.quoteText name).toList) [] name :=
    ArgValue.reads_string (lexicon.margin_nil true).1 (by simp) (by simp) name
  rw [List.nil_append] at hread
  obtain ⟨c, rest, htext, hblank, hc⟩ := ArgValue.head_quoteText name
  have hat : c ≠ '@' := by
    rintro rfl
    exact hc.elim (by decide) fun hnot => hnot (by decide)
  rw [htext] at hread ⊢
  have hpeek : Reads lexicon (peek true) [] (c :: rest ++ []) (some c) :=
    reads_peek (lexicon.margin_nil true) fun _ c' hc' => by cases hc'; exact hblank
  refine hpeek.bind_nil ?_
  split
  · next hhead => cases hhead; exact absurd rfl hat
  · exact hread.bind_pure (reads_pure _)
  · next hhead => cases hhead

theorem parse_of_reads {source : String}
    (h : Reads lexicon (scan registry) source.toList [] s) : parse registry source = .ok s := by
  have hplaced : Reads lexicon (placed (scan registry) source) source.toList [] s := by
    intro t hl ht
    unfold placed
    rw [h t hl ht]
  have hend : Reads lexicon expectEnd [] [] () := reads_expectEnd nofun
  have hall := Reads.bind_pure (f := fun s => expectEnd >>= fun _ => pure s) hplaced
    (hend.bind_pure (reads_pure s))
  unfold parse Scan.run
  rw [hall (.ofText lexicon source) rfl (List.append_nil _).symm]

/-- A type without arguments. -/
theorem parse_bare {name : String} {type : SelectorType} (hname : ∀ c ∈ name.toList, isTypeChar c)
    (htype : registry.type? name = some type) : parse registry ("@" ++ name) = .ok ⟨type, ∅⟩ := by
  have hbuild : build registry type [] = .ok ⟨type, ∅⟩ :=
    build_eq_ok_iff.2 ⟨nofun, duplicated?_of_nodup registry .nil, rfl⟩
  have hargs : Reads lexicon scanArguments [] [] [] := reads_scanArguments_none nofun
  have htext := reads_typed hname htype (by simp) hargs hbuild
  refine parse_of_reads ?_
  simpa using htext

/-- A type with arguments in brackets, in whatever order they are written. -/
theorem parse_written {name : String} {type : SelectorType}
    (hname : ∀ c ∈ name.toList, isTypeChar c) (htype : registry.type? name = some type)
    (hreads : List.Forall₂ (EntryReadsAs ['=', ',', ']']) (written.map argumentTokens) written)
    (hbuild : build registry type written = .ok s) :
    parse registry ("@" ++ name ++
      ("[" ++ ",".intercalate (written.map occurrenceText) ++ "]")) = .ok s := by
  let arguments := (joined (written.map argumentTokens) ++ [[']']]).flatten
  have hbracket : ∀ c ∈ ('[' :: arguments ++ []).head?, isTypeChar c = false := by
    intro c hc
    cases hc
    decide
  have hargs : Reads lexicon scanArguments ('[' :: arguments) [] written :=
    reads_scanArguments hreads (spaced_flatten _)
  have htext := reads_typed hname htype hbracket hargs hbuild
  refine parse_of_reads ?_
  simpa [arguments, flatten_joined, String.toList_intercalate, flatten_argumentTokens,
    Function.comp_def] using htext

end

/-! ## The round trip -/

/-- The numbers with a fractional part in the arguments are read back. -/
def NumbersReadBack (s : Selector) : Prop :=
  ∀ e ∈ s.occurrences, ∀ leaf ∈ e.value.leaves, leaf.isFractional → leaf.ReadsBack

instance (s : Selector) : Decidable s.NumbersReadBack :=
  inferInstanceAs (Decidable (∀ e ∈ s.occurrences, ∀ leaf ∈ e.value.leaves, _))

/-- An argument that was read is read from its tokens as an argument equal to it. -/
theorem exists_entryReadsAs {t t' : Scanner} {e : Entry ArgValue} (hkey : IsWord e.key)
    (hscan : ArgValue.scan t = .ok e.value t')
    (hnumbers : ∀ leaf ∈ e.value.leaves, leaf.isFractional → leaf.ReadsBack) :
    ∃ e' : Entry ArgValue, e'.Alike e ∧ EntryReadsAs ['=', ',', ']'] (argumentTokens e) e' := by
  have hlegible : e.value.Legible := ⟨fun _ hr => ArgValue.bounded_of_scan hscan hr, hnumbers⟩
  obtain ⟨v, heq, hread⟩ := ArgValue.exists_readsAs e.value hlegible
  exact ⟨⟨e.key, e.inverted, v⟩, ⟨rfl, rfl, heq⟩,
    .intro (readsAsKey_of_isWord (by decide) hkey) hread⟩

/-- Equal arguments keep the rules alike. -/
theorem check_of_alike {registry : SelectorRegistry} {type : SelectorType}
    {e' e : Entry ArgValue} (h : e'.Alike e) (hc : check registry type e = .ok ()) :
    check registry type e' = .ok () := by
  rw [check_eq_ok_iff] at hc ⊢
  rw [h.key, h.inverted]
  obtain ⟨spec, hspec, hinverted, hshape, htype⟩ := hc
  exact ⟨spec, hspec, hinverted, spec.shape.matchesValue_congr h.value ▸ hshape, htype⟩

theorem isEmpty_eq {s : Selector} (h : ∀ e ∈ s.arguments.entries, e.2 ≠ []) :
    s.arguments.isEmpty = s.occurrences.isEmpty := by
  unfold occurrences OrderedMap.isEmpty
  cases he : s.arguments.entries with
  | nil => rfl
  | cons e l =>
    have hne := h e (by rw [he]; exact List.mem_cons_self)
    simp [hne]

/-- Arguments that are read from the tokens in brackets. -/
theorem reads_argumentsTokens {s : Selector} (hne : ∀ e ∈ s.arguments.entries, e.2 ≠ [])
    {written : List (Entry ArgValue)}
    (h : List.Forall₂ (EntryReadsAs ['=', ',', ']']) (s.occurrences.map argumentTokens) written) :
    Reads lexicon scanArguments s.argumentsTokens.flatten [] written := by
  unfold argumentsTokens
  rw [isEmpty_eq hne]
  cases hocc : s.occurrences with
  | nil =>
    rw [hocc] at h
    cases h
    exact reads_scanArguments_none nofun
  | cons e l =>
    rw [hocc] at h
    exact reads_scanArguments h (spaced_flatten _)

theorem head_argumentsTokens (s : Selector) :
    ∀ c ∈ s.argumentsTokens.flatten.head?, isTypeChar c = false := by
  unfold argumentsTokens
  split
  · nofun
  · intro c hc
    cases hc
    decide

theorem toString_ofName (name : String) : toString (ofName name) = ArgValue.quoteText name := by
  change (ofName name).toString = _
  have hname : (ofName name).positive? "name" = some (.text name) := by
    rw [positive?, get_ofName, if_pos rfl]
    rfl
  have htype : (ofName name).type.isName := rfl
  rw [Selector.toString, if_pos htype, hname]
  rfl

theorem toString_typed {s : Selector} (h : s.type.name ≠ "") : toString s = s.typedText := by
  change s.toString = _
  have htype : ¬ s.type.isName := by
    unfold SelectorType.isName
    simpa using h
  rw [Selector.toString, if_neg htype]

theorem beq_of_arguments {type : SelectorType}
    {groups' groups : OrderedMap String (List Argument)} (h : groups'.Related Same groups) :
    (⟨type, groups'⟩ : Selector) == ⟨type, groups⟩ :=
  Bool.and_eq_true_iff.2 ⟨beq_self_eq_true type.name, beq_of_related h⟩

/-- A bare name is read back, quoted or not. -/
theorem parse_toString_name (registry : SelectorRegistry) (name : String) :
    parse registry (toString (ofName name)) = .ok (ofName name) ∧ ofName name == ofName name := by
  have halike : List.Forall₂ Entry.Alike [⟨"name", false, .text name⟩]
      [⟨"name", false, .text name⟩] :=
    .cons ⟨rfl, rfl, beq_self_eq_true name⟩ .nil
  constructor
  · rw [toString_ofName]
    exact parse_of_reads (reads_name name)
  · exact beq_of_arguments (grouped_related halike)

theorem exists_forall₂ {α β : Type} {R : α → β → Prop} {l : List α}
    (h : ∀ a ∈ l, ∃ b, R a b) : ∃ l', List.Forall₂ R l l' := by
  induction l with
  | nil => exact ⟨[], .nil⟩
  | cons a l ih =>
    obtain ⟨b, hb⟩ := h a List.mem_cons_self
    obtain ⟨l', hl⟩ := ih fun a ha => h a (.tail _ ha)
    exact ⟨b :: l', .cons hb hl⟩

/-- The arguments are read from their tokens as arguments equal to them, which keep
the rules too. -/
theorem exists_written {registry : SelectorRegistry} {type : SelectorType}
    (hr : registry.Named) {written : List (Entry ArgValue)}
    (hscanned : ∀ e ∈ written, ∃ t t', ArgValue.scan t = .ok e.value t')
    (hcheck : ∀ e ∈ written, check registry type e = .ok ())
    (hn : NumbersReadBack ⟨type, grouped written⟩) :
    ∃ written', (∀ e ∈ written', check registry type e = .ok ()) ∧
      (grouped written').Related Same (grouped written) ∧
      List.Forall₂ (EntryReadsAs ['=', ',', ']'])
        ((occurrences ⟨type, grouped written⟩).map argumentTokens) written' := by
  let s : Selector := ⟨type, grouped written⟩
  have hread : ∀ e ∈ s.occurrences, ∃ e' : Entry ArgValue, check registry type e' = .ok () ∧
      e'.Alike e ∧ EntryReadsAs ['=', ',', ']'] (argumentTokens e) e' := by
    intro e he
    have hwritten := mem_of_mem_occurrences he
    obtain ⟨spec, hspec, _⟩ := check_eq_ok_iff.1 (hcheck e hwritten)
    obtain ⟨t, t', hscan⟩ := hscanned e hwritten
    obtain ⟨e', halike, hreads⟩ := exists_entryReadsAs (hr.isWord hspec) hscan (hn e he)
    exact ⟨e', check_of_alike halike (hcheck e hwritten), halike, hreads⟩
  obtain ⟨written', h⟩ := exists_forall₂ hread
  have hboth : List.Forall₂ (fun e' e => check registry type e' = .ok () ∧ Entry.Alike e' e)
      written' s.occurrences :=
    (h.imp fun _ _ h => ⟨h.1, h.2.1⟩).flip
  obtain ⟨hcheck', halike⟩ := (List.forall₂_and_left _ _).1 hboth
  refine ⟨written', hcheck', ?_, List.forall₂_map_left_iff.2 (h.imp fun _ _ h => h.2.2)⟩
  have hrelated := grouped_related halike
  rwa [grouped_occurrences fun _ => ne_nil_of_mem_grouped] at hrelated

/-- The text of a selector that was read is read as a selector equal to it. -/
theorem parse_toString {registry : SelectorRegistry} (hr : registry.Named) {source : String}
    {s : Selector} (h : parse registry source = .ok s) (hn : s.NumbersReadBack) :
    ∃ s', parse registry (toString s) = .ok s' ∧ s'.type = s.type ∧ s' == s := by
  obtain ⟨name⟩ | @⟨name, type, written, _, hname, htype, hscanned, hbuild⟩ := accepted_of_parse h
  · obtain ⟨hparse, hbeq⟩ := parse_toString_name registry name
    exact ⟨ofName name, hparse, rfl, hbeq⟩
  · obtain ⟨hcheck, hdup, rfl⟩ := build_eq_ok_iff.1 hbuild
    obtain ⟨rfl, hnonempty⟩ := hr.type_name htype
    obtain ⟨written', hcheck', hrelated, hreads⟩ := exists_written hr hscanned hcheck hn
    have hdup' : duplicated? registry (grouped written') = none := by
      rw [duplicated?_congr registry hrelated, hdup]
    have hbuild' : build registry type written' = .ok ⟨type, grouped written'⟩ :=
      build_eq_ok_iff.2 ⟨hcheck', hdup', rfl⟩
    have hargs := reads_argumentsTokens (fun _ => ne_nil_of_mem_grouped) hreads
    refine ⟨⟨type, grouped written'⟩, parse_of_reads ?_, rfl, beq_of_arguments hrelated⟩
    rw [toString_typed hnonempty, toList_typedText]
    refine reads_typed hname htype ?_ hargs hbuild'
    rw [List.append_nil]
    exact head_argumentsTokens _

/-- Scores with a range and an inverted entry, a distance and a relative coordinate. -/
theorem parse_toString_scores :
    SelectorRegistry.standard.Named ∧
      ∃ s, parse .standard "@a[scores={kills=1..5,deaths=!0},r=1.5,x=~-2.25]" = .ok s ∧
        s.NumbersReadBack ∧
        ∃ s', parse .standard (toString s) = .ok s' ∧ s'.type = s.type ∧ s' == s := by
  have hread : ∃ s, parse .standard "@a[scores={kills=1..5,deaths=!0},r=1.5,x=~-2.25]" = .ok s ∧
      s.NumbersReadBack := by
    have hall : (parse .standard "@a[scores={kills=1..5,deaths=!0},r=1.5,x=~-2.25]").toOption.any
        fun s => s.NumbersReadBack := by
      decide +kernel
    cases h : parse .standard "@a[scores={kills=1..5,deaths=!0},r=1.5,x=~-2.25]" with
    | ok s =>
      rw [h] at hall
      exact ⟨s, rfl, of_decide_eq_true hall⟩
    | error e =>
      rw [h] at hall
      cases hall
  obtain ⟨s, hs, hn⟩ := hread
  exact ⟨SelectorRegistry.named_standard, s, hs, hn,
    parse_toString SelectorRegistry.named_standard hs hn⟩

end Selector

end CommandChain
