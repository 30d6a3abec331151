import CommandChain.Proofs.Value.RoundTrip

/-!
# Values read back, however spaced

`Loosened` puts blanks before and after the marks of a text, but for the marks inside
quotes. The text of a value is a row of tokens, each of them a mark or a word without
marks (`IsToken`), so the loosened text is the spaced tokens with blanks behind the last
of them (`exists_spaced`), and these are read as the value (`scan_loosened`).

A word that has quotes around it holds its marks inside: loosening goes through it
character by character and leaves it as it is (`loosened_escape`).
-/

namespace CommandChain.ArgValue

open Scan

/-- The characters that structure the text of a value. -/
def marks : List Char := ['[', ']', '{', '}', ',', '=', '!']

/-- The second text is the first one with blanks put before and after marks; if `quoted`,
the texts begin inside quotes. -/
inductive Loosened : Bool → List Char → List Char → Prop where
  | nil (quoted : Bool) : Loosened quoted [] []
  | mark {c : Char} {before after text loose : List Char} : c ∈ marks →
    lexicon.Blanks before → lexicon.Blanks after → Loosened false text loose →
      Loosened false (c :: text) (before ++ c :: (after ++ loose))
  | plain {c : Char} {text loose : List Char} : c ∉ marks → c ≠ '"' →
    Loosened false text loose → Loosened false (c :: text) (c :: loose)
  | opens {text loose : List Char} :
    Loosened true text loose → Loosened false ('"' :: text) ('"' :: loose)
  | inside {c : Char} {text loose : List Char} : c ≠ '"' → c ≠ '\\' →
    Loosened true text loose → Loosened true (c :: text) (c :: loose)
  | escaped {c : Char} {text loose : List Char} :
    Loosened true text loose → Loosened true ('\\' :: c :: text) ('\\' :: c :: loose)
  | closes {text loose : List Char} :
    Loosened false text loose → Loosened true ('"' :: text) ('"' :: loose)

/-! ## Words -/

/-- The word is left as it is wherever it stands. -/
def Inert (word : List Char) : Prop :=
  ∀ rest text, Loosened false (word ++ rest) text →
    ∃ loose, text = word ++ loose ∧ Loosened false rest loose

/-- No mark and no quote. -/
def Unmarked (c : Char) : Prop := c ∉ marks ∧ c ≠ '"'

instance (c : Char) : Decidable (Unmarked c) := inferInstanceAs (Decidable (_ ∧ _))

theorem Plain.unmarked {c : Char} (h : Plain c) : Unmarked c := by
  have hmarks : marks ⊆ quoteTriggers := by decide
  refine ⟨fun hm => h.2 (hmarks hm), ?_⟩
  rintro rfl
  exact h.2 (by decide)

theorem inert_of_unmarked {word : List Char} (h : ∀ c ∈ word, Unmarked c) : Inert word := by
  intro rest text htext
  induction word generalizing text with
  | nil => exact ⟨text, rfl, htext⟩
  | cons c word ih =>
    obtain ⟨⟨hmark, hquote⟩, hword⟩ := List.forall_mem_cons.1 h
    cases htext with
    | mark hm => exact absurd hm hmark
    | opens => exact absurd rfl hquote
    | plain _ _ hafter =>
      obtain ⟨loose, rfl, hloose⟩ := ih hword _ hafter
      exact ⟨loose, rfl, hloose⟩

/-- Inside quotes everything stands as written, up to the closing quote. -/
theorem loosened_escape {s rest text : List Char}
    (h : Loosened true (escape s ++ '"' :: rest) text) :
    ∃ loose, text = escape s ++ '"' :: loose ∧ Loosened false rest loose := by
  induction s generalizing text with
  | nil =>
    cases h with
    | inside hquote => exact absurd rfl hquote
    | closes h => exact ⟨_, rfl, h⟩
  | cons c s ih =>
    unfold escape at h ⊢
    by_cases hc : c = '"' ∨ c = '\\'
    · rw [if_pos hc, List.cons_append, List.cons_append] at h
      rw [if_pos hc]
      cases h with
      | inside _ hback => exact absurd rfl hback
      | escaped hafter =>
        obtain ⟨loose, rfl, hloose⟩ := ih hafter
        exact ⟨loose, rfl, hloose⟩
    · rw [if_neg hc, List.cons_append] at h
      rw [if_neg hc]
      generalize htail : escape s ++ '"' :: rest = tail at h
      cases h with
      | escaped => exact absurd (.inr rfl) hc
      | closes => exact absurd (.inl rfl) hc
      | inside _ _ hafter =>
        subst htail
        obtain ⟨loose, rfl, hloose⟩ := ih hafter
        exact ⟨loose, rfl, hloose⟩

theorem inert_quoted (s : List Char) : Inert ('"' :: escape s ++ ['"']) := by
  intro rest text h
  rw [List.append_assoc, List.cons_append] at h
  cases h with
  | mark hm => exact absurd hm (by decide)
  | plain _ hquote => exact absurd rfl hquote
  | opens h =>
    obtain ⟨loose, rfl, hl⟩ := loosened_escape h
    exact ⟨loose, by simp, hl⟩

theorem inert_quoteText (s : String) : Inert (quoteText s).toList := by
  rw [toList_quoteText]
  cases hq : needsQuotes s.toList with
  | true => exact inert_quoted s.toList
  | false => exact inert_of_unmarked fun c hc => ((bare_of_needsQuotes hq).chars c hc).unmarked

theorem bool_chars (b : Bool) : ∀ c ∈ (toString b).toList, Unmarked c := by
  have halpha : ∀ c ∈ (toString b).toList, c.isAlpha := by
    cases b
    · exact List.all_eq_true.1 rfl
    · exact List.all_eq_true.1 rfl
  exact fun c hc => Plain.unmarked (plain_of (by decide) (halpha c hc))

theorem int_chars (i : Int64) : ∀ c ∈ (toString i).toList, Unmarked c := by
  intro c hc
  have hchars : (toString i).toList = (Numeral.ofInt i.toInt).chars :=
    (Numeral.chars_ofInt i.toInt).symm
  have hdigits := (Numeral.valid_ofInt i.toInt).whole
  rw [hchars, Numeral.chars_eq] at hc
  have hdigit (h : c.isDigit) : Unmarked c :=
    Plain.unmarked (plain_of_startsNumber (by simp [startsNumber, h]))
  unfold Numeral.ofInt at hc hdigits
  simp only [Numeral.fractionChars, List.append_nil, List.mem_append, Option.mem_toList] at hc
  rcases hc with hc | hc
  · split at hc <;> cases hc
    decide
  · exact hdigit (hdigits c hc)

theorem boundText_chars (bound : Option Int64) : ∀ c ∈ boundText bound, Unmarked c := by
  cases bound with
  | none => nofun
  | some i => exact int_chars i

theorem range_chars (r : IntRange) : ∀ c ∈ (toString r).toList, Unmarked c := by
  rw [toList_range]
  refine List.forall_mem_append.2 ⟨boundText_chars r.min, ?_⟩
  exact List.forall_mem_cons.2 ⟨by decide,
    List.forall_mem_cons.2 ⟨by decide, boundText_chars r.max⟩⟩

theorem relative_chars (x : Float) : ∀ c ∈ (toString (relative x)).toList, Unmarked c := by
  rw [toString_relative]
  refine List.forall_mem_cons.2 ⟨by decide, fun c hc => ?_⟩
  split at hc
  · cases hc
  · exact (floatText_chars x c hc).unmarked

/-! ## Tokens -/

/-- A mark, or a word that is left as it is. -/
inductive IsToken : List Char → Prop where
  | mark {c : Char} : c ∈ marks → IsToken [c]
  | word {word : List Char} : Inert word → IsToken word

theorem isToken_joined {parts : List (List (List Char))}
    (h : ∀ part ∈ parts, ∀ token ∈ part, IsToken token) :
    ∀ token ∈ joined parts, IsToken token := by
  induction parts with
  | nil => nofun
  | cons part parts ih =>
    obtain ⟨hpart, hparts⟩ := List.forall_mem_cons.1 h
    cases parts with
    | nil => exact hpart
    | cons part' parts =>
      rw [joined_cons_cons]
      exact List.forall_mem_append.2
        ⟨hpart, List.forall_mem_cons.2 ⟨.mark (by decide), ih hparts⟩⟩

/-- What stands in brackets is tokens if its parts are. -/
theorem isToken_bracketed {opening closing : Char} (ho : opening ∈ marks) (hc : closing ∈ marks)
    {parts : List (List (List Char))} (h : ∀ part ∈ parts, ∀ token ∈ part, IsToken token) :
    ∀ token ∈ [opening] :: (joined parts ++ [[closing]]), IsToken token :=
  List.forall_mem_cons.2 ⟨.mark ho, List.forall_mem_append.2
    ⟨isToken_joined h, List.forall_mem_singleton.2 (.mark hc)⟩⟩

mutual

theorem isToken_tokens : (v : ArgValue) → ∀ token ∈ v.tokens, IsToken token
  | map entries => by
    rw [tokens]
    exact isToken_bracketed (by decide) (by decide) (isToken_entryTokens entries)
  | list items => by
    rw [tokens]
    exact isToken_bracketed (by decide) (by decide) (isToken_itemTokens items)
  | bool b => List.forall_mem_singleton.2 (.word (inert_of_unmarked (bool_chars b)))
  | int i => List.forall_mem_singleton.2 (.word (inert_of_unmarked (int_chars i)))
  | float x => List.forall_mem_singleton.2
    (.word (inert_of_unmarked fun c hc => (floatText_chars x c hc).unmarked))
  | range r => List.forall_mem_singleton.2 (.word (inert_of_unmarked (range_chars r)))
  | relative x => List.forall_mem_singleton.2 (.word (inert_of_unmarked (relative_chars x)))
  | text s => List.forall_mem_singleton.2 (.word (inert_quoteText s))

theorem isToken_entryTokens : (entries : List (Entry ArgValue)) →
    ∀ part ∈ entryTokens entries, ∀ token ∈ part, IsToken token
  | [] => nofun
  | ⟨key, inverted, value⟩ :: rest => by
    rw [entryTokens]
    refine List.forall_mem_cons.2 ⟨?_, isToken_entryTokens rest⟩
    refine List.forall_mem_cons.2 ⟨.word (inert_quoteText key), ?_⟩
    refine List.forall_mem_cons.2 ⟨.mark (by decide), List.forall_mem_append.2 ⟨?_, ?_⟩⟩
    · cases inverted
      · nofun
      · exact List.forall_mem_singleton.2 (.mark (by decide))
    · exact isToken_tokens value

theorem isToken_itemTokens : (items : List ArgValue) →
    ∀ part ∈ itemTokens items, ∀ token ∈ part, IsToken token
  | [] => nofun
  | value :: rest => by
    rw [itemTokens]
    exact List.forall_mem_cons.2 ⟨isToken_tokens value, isToken_itemTokens rest⟩

end

/-- Blanks before a loosened text of tokens, and the blanks in it, are blanks before the
tokens or behind the last of them. -/
theorem exists_spaced {tokens : List (List Char)} {text : List Char}
    (htokens : ∀ token ∈ tokens, IsToken token) (h : Loosened false tokens.flatten text)
    {b : List Char} (hb : lexicon.Blanks b) :
    ∃ spaced after, b ++ text = spaced ++ after ∧ Spaced lexicon tokens spaced ∧
      lexicon.Blanks after := by
  induction tokens generalizing text b with
  | nil =>
    cases h
    exact ⟨[], b, by simp, .nil, hb⟩
  | cons token tokens ih =>
    obtain ⟨htoken, hrest⟩ := List.forall_mem_cons.1 htokens
    rw [List.flatten_cons] at h
    cases htoken with
    | @mark c hc =>
      cases h with
      | plain hmark => exact absurd hc hmark
      | opens => exact absurd hc (by decide)
      | @mark _ before after _ loose _ hbefore hafter hloose =>
        obtain ⟨spaced, last, heq, hspaced, hlast⟩ := ih hrest hloose hafter
        refine ⟨(b ++ before) ++ ([c] ++ spaced), last, ?_, .cons ?_ hspaced, hlast⟩
        · rw [heq]
          simp only [List.append_assoc, List.cons_append, List.nil_append]
        · exact List.forall_mem_append.2 ⟨hb, hbefore⟩
    | word hword =>
      obtain ⟨loose, rfl, hloose⟩ := hword _ _ h
      obtain ⟨spaced, last, heq, hspaced, hlast⟩ :=
        ih hrest hloose (ArgValue.lexicon.margin_nil true).1
      obtain rfl : loose = spaced ++ last := heq
      exact ⟨b ++ (token ++ spaced), last, by simp only [List.append_assoc], .cons hb hspaced,
        hlast⟩

/-! ## Values -/

theorem Ends.append_blanks {follow : List Char} (h : Ends follow) {b : List Char}
    (hb : lexicon.Blanks b) : Ends (b ++ follow) := by
  cases b with
  | nil => exact h
  | cons c b => intro c' hc'; cases hc'; exact .inl (hb c List.mem_cons_self)

/-- A value is read back from its text with blanks before and after any of the marks, as
a value equal to it. What is left unread is the text that follows, with the blanks that
stood behind the last mark. -/
theorem scan_loosened {v : ArgValue} (hv : v.Legible) {text follow : List Char}
    (htext : Loosened false (toString v).toList text) (hfollow : Ends follow) {t : Scanner}
    (hlexicon : t.lexicon = lexicon) (hrest : t.rest = text ++ follow) :
    ∃ v' t' blanks, ArgValue.scan t = .ok v' t' ∧ v' == v ∧
      t'.rest = blanks ++ follow ∧ lexicon.Blanks blanks ∧ blanks <:+ text ∧
      t' = t.advance (text.length - blanks.length) := by
  obtain ⟨v', heq, hread⟩ := exists_readsAs v hv
  have hflatten : (toString v).toList = v.tokens.flatten := (flatten_tokens v).symm
  rw [hflatten] at htext
  obtain ⟨spaced, blanks, hsplit, hspaced, hblanks⟩ :=
    exists_spaced (isToken_tokens v) htext (lexicon.margin_nil true).1
  obtain rfl : text = spaced ++ blanks := hsplit
  rw [List.append_assoc] at hrest
  have hscan := hread.reads spaced _ (hfollow.append_blanks hblanks) hspaced t hlexicon hrest
  refine ⟨v', _, blanks, hscan, heq, Scanner.rest_advance_of_append hrest, hblanks,
    List.suffix_append spaced blanks, ?_⟩
  rw [List.length_append, Nat.add_sub_cancel]

/-- A key with a mark in its quotes, a number, an empty string, and more text behind them. -/
theorem scan_loosened_nested :
    let v := map [⟨"a,b", true, list [float 2.5, text ""]⟩]
    let text := " \x7b\"a,b\" =\t!\n[ 2.5 ,\"\"] \x7d\r ".toList
    let follow := ",c=1".toList
    let t := Scanner.ofText lexicon (String.ofList (text ++ follow))
    v.Legible ∧ Loosened false (toString v).toList text ∧ Ends follow ∧ t.rest = text ++ follow ∧
      ∃ v' t' blanks, ArgValue.scan t = .ok v' t' ∧ v' == v ∧
        t'.rest = blanks ++ follow ∧ lexicon.Blanks blanks ∧ blanks <:+ text ∧
        t' = t.advance (text.length - blanks.length) := by
  intro v text follow t
  have hleaves : v.leaves = [float 2.5, ArgValue.text ""] := rfl
  have hlegible : v.Legible := by
    constructor
    · intro r hr
      simp [hleaves] at hr
    · intro leaf hleaf hfractional
      rw [hleaves] at hleaf
      rcases List.mem_cons.1 hleaf with rfl | hleaf
      · decide +kernel
      · rw [List.mem_singleton.1 hleaf] at hfractional
        cases hfractional
  have hdisplay : (toString v).toList = ['{', '"', 'a', ',', 'b', '"', '=', '!', '[', '2', '.',
    '5', ',', '"', '"', ']', '}'] := by decide +kernel
  have hblanks {b : List Char} (h : b.all lexicon.whitespace.contains) : lexicon.Blanks b :=
    fun c hc => List.contains_iff_mem.1 (List.all_eq_true.1 h c hc)
  have htext : Loosened false (toString v).toList text := by
    rw [hdisplay]
    refine @Loosened.mark '{' [' '] [] _ _ (by decide) (hblanks rfl) (hblanks rfl) ?_
    refine .opens (.inside (by decide) (by decide) (.inside (by decide) (by decide)
      (.inside (by decide) (by decide) (.closes ?_))))
    refine @Loosened.mark '=' [' '] ['\t'] _ _ (by decide) (hblanks rfl) (hblanks rfl) ?_
    refine @Loosened.mark '!' [] [] _ _ (by decide) (hblanks rfl) (hblanks rfl) ?_
    refine @Loosened.mark '[' ['\n'] [' '] _ _ (by decide) (hblanks rfl) (hblanks rfl) ?_
    refine .plain (by decide) (by decide) (.plain (by decide) (by decide)
      (.plain (by decide) (by decide) ?_))
    refine @Loosened.mark ',' [' '] [] _ _ (by decide) (hblanks rfl) (hblanks rfl) ?_
    refine .opens (.closes ?_)
    refine @Loosened.mark ']' [] [' '] _ _ (by decide) (hblanks rfl) (hblanks rfl) ?_
    exact @Loosened.mark '}' [] ['\r', ' '] _ _ (by decide) (hblanks rfl) (hblanks rfl) (.nil _)
  have hends : Ends follow := by
    intro c hc
    cases hc
    exact .inr (by decide)
  exact ⟨hlegible, htext, hends, String.toList_ofList,
    scan_loosened hlegible htext hends rfl String.toList_ofList⟩

end CommandChain.ArgValue
