import CommandChain.Proofs.Scanner.Reads
import CommandChain.Value.Parser

/-!
# Strings read back

A string is written bare only where every reader of strings takes the bare form
for the string itself (`Bare`); otherwise it is written between quotes, and
`Scan.closeQuote` undoes `escape`.
-/

namespace CommandChain.ArgValue

/-! ## Quoted strings -/

theorem closeQuote_escape (s follow : List Char) :
    Scan.closeQuote '"' (escape s ++ '"' :: follow) = some (s, (escape s).length + 1) := by
  induction s with
  | nil =>
    rw [escape, List.nil_append, Scan.closeQuote]
    · rfl
    · nofun
    · nofun
  | cons c s ih =>
    unfold escape
    split
    · rw [List.cons_append, List.cons_append, Scan.closeQuote, ih]
      rfl
    · next hc =>
      simp only [not_or] at hc
      rw [List.cons_append, Scan.closeQuote, if_neg hc.1, ih]
      · rfl
      · exact fun h => absurd h hc.2
      · intro _ _ h; exact absurd h hc.2

theorem reads_quoted (s follow : List Char) :
    Scan.Reads lexicon Scan.quoted ('"' :: escape s ++ ['"']) follow (String.ofList s) := by
  intro t hl ht
  simp only [List.append_assoc, List.cons_append, List.nil_append] at ht
  have hquote : t.lexicon.quotes.contains '"' := by rw [hl]; rfl
  simp only [Scan.quoted, ht, if_pos hquote, closeQuote_escape]
  simp

/-! ## Bare strings -/

/-- A character of bare strings. -/
def Plain (c : Char) : Prop := c ∉ lexicon.whitespace ∧ c ∉ quoteTriggers

theorem plain_of {p : Char → Bool} (hp : (lexicon.whitespace ++ quoteTriggers).any p = false)
    {c : Char} (hc : p c) : Plain c := by
  have hnone := List.any_eq_false.1 hp c
  exact ⟨fun hm => hnone (List.mem_append_left _ hm) hc,
    fun hm => hnone (List.mem_append_right _ hm) hc⟩

theorem plain_of_startsNumber {c : Char} (h : startsNumber c) : Plain c := plain_of (by decide) h

theorem stops_subset : stops ⊆ quoteTriggers := by decide

/-- The string is written without quotes. -/
structure Bare (s : List Char) : Prop where
  ne_nil : s ≠ []
  ne_word : s ≠ ['t', 'r', 'u', 'e'] ∧ s ≠ ['f', 'a', 'l', 's', 'e']
  head : ∀ c ∈ s.head?, startsNumber c = false
  chars : ∀ c ∈ s, Plain c

theorem bare_of_needsQuotes {s : List Char} (h : needsQuotes s = false) : Bare s := by
  have hblank : ∀ c ∈ lexicon.whitespace, Text.isBlank c := List.all_eq_true.1 (by decide)
  simp only [needsQuotes, Bool.or_eq_false_iff, beq_eq_false_iff_ne] at h
  obtain ⟨⟨⟨⟨hnil, htrue⟩, hfalse⟩, hhead⟩, hchars⟩ := h
  refine ⟨by simpa using hnil, ⟨htrue, hfalse⟩, fun c hc => ?_, fun c hc => ?_⟩
  · rw [Option.mem_def.1 hc] at hhead
    exact hhead
  · have h := List.any_eq_false.1 hchars c hc
    simp only [Bool.or_eq_true, List.contains_iff_mem, not_or] at h
    exact ⟨fun hw => h.1 (hblank c hw), h.2⟩

/-- Characters of bare strings are read as far as they go. -/
theorem reads_unquoted_plain {s : List Char} (hne : s ≠ [])
    (hchars : ∀ c ∈ s, Plain c) {stops follow : List Char} (hstops : stops ⊆ quoteTriggers)
    (hend : ∀ c ∈ follow.head?, c ∈ lexicon.whitespace ∨ c ∈ stops) :
    Scan.Reads lexicon (Scan.unquoted stops) s follow (String.ofList s) := by
  have hsymbols : lexicon.symbols ⊆ quoteTriggers := by decide
  refine Scan.reads_unquoted hne (fun c hc => ?_) hend
  obtain ⟨hw, ht⟩ := hchars c hc
  exact ⟨hw, fun hs => ht (hstops hs), fun hs => ht (hsymbols hs)⟩

/-! ## Strings -/

theorem toList_quoteText (s : String) : (quoteText s).toList =
    if needsQuotes s.toList then '"' :: escape s.toList ++ ['"'] else s.toList := by
  unfold quoteText
  split <;> simp

/-- A written string begins with a quote or with a character of a bare string. -/
theorem head_quoteText (s : String) : ∃ c rest, (quoteText s).toList = c :: rest ∧
    c ∉ lexicon.whitespace ∧ (c = '"' ∨ c ∉ quoteTriggers) := by
  rw [toList_quoteText]
  cases hq : needsQuotes s.toList with
  | true => exact ⟨'"', _, rfl, by decide, .inl rfl⟩
  | false =>
    have hbare := bare_of_needsQuotes hq
    cases hs : s.toList with
    | nil => exact absurd hs hbare.ne_nil
    | cons c rest =>
      have hc := hbare.chars c (by rw [hs]; exact List.mem_cons_self)
      exact ⟨c, rest, rfl, hc.1, .inr hc.2⟩

section

variable {s stops follow b : List Char} (hb : lexicon.Blanks b)
  (hstops : stops ⊆ quoteTriggers)
  (hend : ∀ c ∈ follow.head?, c ∈ lexicon.whitespace ∨ c ∈ stops)

include hb

theorem reads_string_quoted :
    Scan.Reads lexicon (Scan.string stops) (b ++ ('"' :: escape s ++ ['"'])) follow
      (String.ofList s) := by
  refine Scan.Reads.bind (Scan.reads_peek hb.margin fun _ c hc => by cases hc; decide) ?_
  refine Scan.Reads.get_bind fun t hl ht => ?_
  have hquote : t.lexicon.quotes.contains '"' := by rw [hl]; rfl
  rw [if_pos hquote]
  exact reads_quoted s follow t hl ht

include hstops hend

theorem reads_string_plain (hne : s ≠ []) (hchars : ∀ c ∈ s, Plain c) :
    Scan.Reads lexicon (Scan.string stops) (b ++ s) follow (String.ofList s) := by
  have hread := reads_unquoted_plain hne hchars hstops hend
  cases s with
  | nil => exact absurd rfl hne
  | cons c s =>
    have hc := hchars c List.mem_cons_self
    refine Scan.Reads.bind (Scan.reads_peek hb.margin fun _ c' hc' => by cases hc'; exact hc.1) ?_
    refine Scan.Reads.get_bind fun t hl ht => ?_
    have hquote : ¬ t.lexicon.quotes.contains c := by
      have hne : c ≠ '"' := by rintro rfl; exact hc.2 (by decide)
      rw [hl]
      simpa [lexicon] using hne
    rw [if_neg hquote]
    exact hread t hl ht

/-- A written string is read as the string, bare or quoted. -/
theorem reads_string (s : String) :
    Scan.Reads lexicon (Scan.string stops) (b ++ (quoteText s).toList) follow s := by
  rw [toList_quoteText]
  cases hq : needsQuotes s.toList with
  | true =>
    have hread : Scan.Reads lexicon (Scan.string stops)
        (b ++ ('"' :: escape s.toList ++ ['"'])) follow (String.ofList s.toList) :=
      reads_string_quoted hb
    rwa [String.ofList_toList] at hread
  | false =>
    have hbare := bare_of_needsQuotes hq
    have hread := reads_string_plain hb hstops hend hbare.ne_nil hbare.chars
    rwa [String.ofList_toList] at hread

end

end CommandChain.ArgValue
