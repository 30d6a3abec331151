import CommandChain.Proofs.Selector.Accepted
import CommandChain.Proofs.Value.Prefix
import Mathlib.Data.List.DropRight

/-!
# Selectors in longer texts

A selector that is a whole text is also read where a further text follows behind a blank
(`scan_prefix`). What is left is then the further text and the blanks before it, since the
last character that is read is no blank (`solid_of_scan`).
-/

namespace CommandChain

open Scan

namespace Selector

open ArgValue (lexicon)

/-- The reader of selectors, by the first character. -/
theorem scan_eq (registry : SelectorRegistry) : scan registry =
    (peek true >>= fun head => head.elim (fail "expected selector") fun c =>
      if c = '@' then scanTyped registry else ofName <$> Scan.string []) := by
  unfold scan
  refine congrArg (peek true >>= ·) (funext fun head => ?_)
  split
  · rfl
  · next c hc =>
    rw [Option.elim_some, if_neg]
    · rfl
    · rintro rfl
      exact hc rfl
  · rfl

theorem isTypeChar_of_blank : ∀ c ∈ lexicon.whitespace, isTypeChar c = false :=
  List.all_iff_forall_prop.1 (by decide)

theorem scanArguments_none {t : Scanner} (h : t.rest.head? ≠ some '[') :
    scanArguments t = .ok [] t := by
  have hpeek : peek false t = .ok t.rest.head? t := rfl
  unfold scanArguments
  rw [bind_of_ok hpeek, if_neg fun hc => h (beq_iff_eq.1 hc)]
  rfl

/-! ## Reading on in a longer text -/

theorem extends_faulty {u : List Char} {fault : SelectorFault} {y : Scan Selector} :
    Extends lexicon u (faulty fault) y := by
  intro t _ s t' h
  cases h

section

variable {u : List Char} (hu : lexicon.Gap u) {registry : SelectorRegistry}

include hu

theorem extends_scanArguments : Extends lexicon u scanArguments scanArguments := by
  intro t hl
  have hitems : Extends lexicon u (itemsThrough (Entry.scan ['=', ',', ']'] ArgValue.scan) "]")
      (itemsThrough (Entry.scan ['=', ',', ']'] ArgValue.scan) "]") :=
    extends_itemsThrough hu (by decide) (by decide)
      (ArgValue.extends_entry hu (ArgValue.extends_scan hu) ArgValue.hungry_scan)
      ArgValue.hungry_entry
  by_cases hne : t.rest = []
  · intro written t' h
    rw [scanArguments_none (by rw [hne]; nofun)] at h
    cases h
    refine ⟨⟨0, t.advance_zero.symm⟩, scanArguments_none ?_⟩
    rw [Scanner.rest_followedBy, hne, List.nil_append]
    intro hbracket
    exact absurd (hu '[' hbracket) (by decide)
  · refine (extendsAt_peek_false hne).bind fun c t' hc => ?_
    cases hc
    split
    · refine (extendsAt_next hne).bind fun _ t' hnext => ?_
      rw [next_eq] at hnext
      cases hnext
      exact hitems _ hl
    · exact extends_pure [] t hl

theorem extendsAt_scanTyped {t : Scanner} (hl : t.lexicon = lexicon) (hne : t.rest ≠ []) :
    ExtendsAt u (scanTyped registry) (scanTyped registry) t := by
  have hend : ∀ c ∈ u.head?, isTypeChar c = false := fun c hc => isTypeChar_of_blank c (hu c hc)
  refine (extendsAt_next hne).bind fun _ t' hnext => ?_
  rw [next_eq] at hnext
  cases hnext
  refine ((extends_takeWhile hend).bind fun name => ?_) _ hl
  cases registry.type? name with
  | none => exact extends_faulty
  | some type =>
    refine (extends_scanArguments hu).bind fun written => ?_
    cases build registry type written with
    | ok s => exact extends_pure s
    | error fault => exact extends_faulty

theorem extends_scan : Extends lexicon u (scan registry) (scan registry) := by
  rw [scan_eq]
  refine Extends.peek_bind nofun fun c t hl hc => ?_
  rw [Option.elim_some]
  split
  · refine extendsAt_scanTyped hu hl ?_
    rintro hnil
    rw [hnil] at hc
    cases hc
  · exact (extends_string hu).map t hl

end

/-! ## Where selectors end -/

section

variable {registry : SelectorRegistry} {t t' : Scanner} {s : Selector}

theorem solid_of_takeWhile {p : Char → Bool} {word : String}
    (hp : ∀ c, p c → c ∉ lexicon.whitespace) (ht : lexicon.Solid t.consumed)
    (h : takeWhile p t = .ok word t') : lexicon.Solid t'.consumed := by
  obtain rfl : t.skipWhile p = t' := (EStateM.Result.ok.inj h).2
  have hsplit : t.rest = t.rest.takeWhile p ++ t.rest.dropWhile p :=
    List.takeWhile_append_dropWhile.symm
  by_cases hnil : t.rest.takeWhile p = []
  · rwa [Scanner.skipWhile, hnil, List.length_nil, Scanner.advance_zero]
  · exact solid_advance hsplit hnil fun c hc =>
      hp c (List.mem_takeWhile_imp (List.mem_of_getLast? hc))

theorem solid_of_scanArguments {written : List (Entry ArgValue)}
    (ht : lexicon.Solid t.consumed) (h : scanArguments t = .ok written t') :
    lexicon.Solid t'.consumed := by
  obtain ⟨head, t₁, hpeek, h₁⟩ := bind_eq_ok_iff.1 h
  cases hpeek
  split at h₁
  · obtain ⟨_, t₂, _, h₂⟩ := bind_eq_ok_iff.1 h₁
    exact solid_of_itemsThrough (by decide) h₂
  · cases h₁
    exact ht

theorem solid_of_scanTyped (ht : t.rest.head? = some '@')
    (h : scanTyped registry t = .ok s t') : lexicon.Solid t'.consumed := by
  obtain ⟨name, t₁, type, written, hname, -, hwritten, -⟩ := scanTyped_parts h
  obtain ⟨rest, hrest⟩ : ∃ rest, t.rest = ['@'] ++ rest := List.head?_eq_some_iff.1 ht
  have hmark : lexicon.Solid (t.advance ['@'].length).consumed :=
    solid_advance hrest (by decide) fun c hc => by cases hc; decide
  have hblank : ∀ c, isTypeChar c → c ∉ lexicon.whitespace := by
    intro c hc hmem
    rw [isTypeChar_of_blank c hmem] at hc
    cases hc
  exact solid_of_scanArguments (solid_of_takeWhile hblank hmark hname) hwritten

theorem solid_of_scan (hl : t.lexicon = lexicon) (h : scan registry t = .ok s t') :
    lexicon.Solid t'.consumed := by
  rw [scan_eq, bind_of_ok (peek_eq t)] at h
  cases hhead : t.skipBlanks.rest.head? with
  | none =>
    rw [hhead] at h
    cases h
  | some c =>
    rw [hhead, Option.elim_some] at h
    split at h
    · next hc => exact solid_of_scanTyped (hc ▸ hhead) h
    · obtain ⟨name, hname, -⟩ := map_eq_ok_iff.1 h
      have hquotes : ∀ c ∈ t.skipBlanks.lexicon.quotes, c ∉ t.skipBlanks.lexicon.whitespace := by
        change ∀ c ∈ t.lexicon.quotes, c ∉ t.lexicon.whitespace
        rw [hl]
        exact List.all_iff_forall_prop.1 (by decide)
      rw [← hl]
      exact solid_of_string (t := t.skipBlanks) hquotes hname

end

/-- Blanks that are left behind a character that is none are all the blanks the text ends in. -/
theorem rtakeWhile_source {t : Scanner} (hrest : lexicon.Blanks t.rest)
    (hconsumed : lexicon.Solid t.consumed) :
    t.source.rtakeWhile lexicon.whitespace.contains = t.rest := by
  have hblanks : lexicon.Blanks t.rest.reverse := fun c hc => hrest c (List.mem_reverse.1 hc)
  rw [List.rtakeWhile, Scanner.source, List.reverse_append, List.reverse_reverse,
    hblanks.takeWhile_append hconsumed, List.reverse_reverse]

/-- A selector that is a whole text is read in the same way where the text goes on behind a
blank, and the reader leaves what follows the selector. -/
theorem scan_prefix {registry : SelectorRegistry} {text u : String} {s : Selector}
    (h : parse registry text = .ok s) (hu : ∀ c ∈ u.toList.head?, c ∈ lexicon.whitespace) :
    ∃ t, scan registry (.ofText lexicon (text ++ u)) = .ok s t ∧
      t.rest = text.toList.rtakeWhile lexicon.whitespace.contains ++ u.toList := by
  obtain ⟨t, hscan, hblanks⟩ := exists_scan_of_parse h
  obtain ⟨⟨n, rfl⟩, hlong⟩ := extends_scan hu (.ofText lexicon text) rfl s t hscan
  have htext : (Scanner.ofText lexicon text).followedBy u.toList =
      .ofText lexicon (text ++ u) := by
    simp [Scanner.followedBy, Scanner.ofText]
  rw [htext] at hlong
  refine ⟨_, hlong, congrArg (· ++ u.toList) ?_⟩
  have hsource : ((Scanner.ofText lexicon text).advance n).source = text.toList :=
    Scanner.source_advance (.ofText lexicon text) n
  rw [← hsource]
  exact (rtakeWhile_source hblanks (solid_of_scan rfl hscan)).symm

/-- Arguments, and a blank on either side of where the texts meet. -/
theorem scan_prefix_kills : ∃ s t, parse .standard "@s[tag=a] " = .ok s ∧
    scan .standard (.ofText lexicon ("@s[tag=a] " ++ " kills")) = .ok s t ∧
      t.rest = "  kills".toList := by
  have hread : (parse .standard "@s[tag=a] ").toOption.any fun _ => true := by decide +kernel
  obtain ⟨s, hs, -⟩ := exists_ok_of_any hread
  obtain ⟨t, hscan, hrest⟩ := scan_prefix (u := " kills") hs (by intro c hc; cases hc; decide)
  exact ⟨s, t, hs, hscan, hrest⟩

end Selector

end CommandChain
