import CommandChain.Proofs.Value.Leaf
import CommandChain.Proofs.Value.Scanned
import Mathlib.Data.Bool.AllAny

/-!
# Bare tokens

A token that is no number and no word for a boolean is text, also if it begins with one
(`scan_textToken`). Such a token is read as a number first and then again from its first
character on. The first reading must not fail: an integer beyond 64 bits at the start of a
token is an error, whatever comes behind it (`long_digits_rejected`).
-/

namespace CommandChain.ArgValue

open Scan

/-- A token that is neither a number, a boolean nor a range. -/
structure TextToken (s : List Char) : Prop extends Unbroken s where
  no_dots : ¬ ['.', '.'] <:+: s
  not_word : s ≠ "true".toList ∧ s ≠ "false".toList
  not_number : ∀ n : Numeral, n.Valid → s ≠ n.chars

/-- The number that the token begins with, if there is one, has a point or fits 64 bits. -/
def LeadFits (s : List Char) : Prop :=
  ∀ (n : Numeral) (rest : List Char), n.Valid → s = n.chars ++ rest → n.StopsAt rest → n.Fits

section

variable {s rest follow : List Char} {n : Numeral} {t : Scanner}

theorem leadFits_iff : LeadFits s ↔ ∀ n, Numeral.read s = some n → n.Fits := by
  constructor
  · intro h n hread
    obtain ⟨hvalid, rest, hs, hstops⟩ := Numeral.valid_of_read hread
    exact h n rest hvalid hs hstops
  · rintro h n rest hvalid rfl hstops
    exact h n (Numeral.read_chars_append hvalid hstops)

theorem not_number_of_read (hread : Numeral.read s = some n) (hne : n.chars ≠ s) :
    ∀ n' : Numeral, n'.Valid → s ≠ n'.chars := by
  rintro n' hvalid rfl
  rw [Numeral.read_chars hvalid] at hread
  exact hne (congrArg Numeral.chars (Option.some.inj hread).symm)

theorem Ends.longest_dots (h : Ends follow) (hs : ¬ ['.', '.'] <+: s) :
    longest [".."] (s ++ follow) = none := by
  rw [longest_singleton (by decide), if_neg]
  intro hp
  have hdots : ∀ c ∈ "..".toList, c ∉ lexicon.whitespace ∧ c ∉ stops :=
    List.all_iff_forall_prop.1 (by decide)
  exact hs (h.prefix_of_append hdots (List.isPrefixOf_iff_prefix.1 hp))

/-- A token that goes on behind a number is read again as text. -/
theorem reads_numberOrText_text (hs : Unbroken (n.chars ++ rest)) (hrest : rest ≠ [])
    (hread : Numeral.read (n.chars ++ rest) = some n) (hfits : n.Fits)
    (hdots : ¬ ['.', '.'] <+: rest) (h : Ends follow) :
    Reads lexicon numberOrText (n.chars ++ rest) follow
      (text (String.ofList (n.chars ++ rest))) := by
  intro start hl ht
  obtain ⟨m, hm⟩ := exists_numberOf_iff.2 hfits
  have hnumber : number start = .ok m (start.advance n.chars.length) := by
    refine number_eq_ok_iff.2 ⟨n, ?_, hm, rfl⟩
    rw [ht, h.clear.read_append, hread]
  have hsplit := ht
  rw [List.append_assoc] at hsplit
  have hafter := Scanner.rest_advance_of_append hsplit
  have hseen : testAny [".."] false (start.advance n.chars.length) =
      .ok none (start.advance n.chars.length) := by
    rw [← h.longest_dots hdots, ← hafter]
    rfl
  have hend := hs.goesOn hrest follow (start.advance n.chars.length) hl hafter
  unfold numberOrText
  change (number >>= _) start = _
  rw [bind_of_ok hnumber, bind_of_ok hseen]
  exact (bind_of_ok hend).trans (hs.reads h start hl ht)

/-- The numbers and the bare text among the values are read as tokens. -/
theorem scan_eq_token {c : Char} (hlexicon : t.lexicon = lexicon) (hrest : t.rest = c :: rest)
    (hblank : c ∉ lexicon.whitespace) (hc : c ∉ ['{', '[', '"', '~']) :
    ArgValue.scan t = token t := by
  have hpeek : peek true t = .ok (some c) t := by
    have hread : Reads lexicon (peek true) [] (c :: rest) (some c) :=
      reads_peek (lexicon.margin_nil true) fun _ c' hc' => by cases hc'; exact hblank
    rw [hread t hlexicon hrest, List.length_nil, Scanner.advance_zero]
  rw [ArgValue.scan, scanWith_eq, bind_of_ok hpeek]
  exact congrFun (scanFrom_eq_token _ hc) t

theorem TextToken.scan_eq_token (hs : TextToken s) (hlexicon : t.lexicon = lexicon)
    (hrest : t.rest = s ++ follow) : ArgValue.scan t = token t := by
  cases s with
  | nil => exact absurd rfl hs.ne_nil
  | cons c s =>
    have hsymbols : ['{', '[', '"', '~'] ⊆ lexicon.symbols := by decide
    have hc := hs.chars c List.mem_cons_self
    exact ArgValue.scan_eq_token hlexicon hrest hc.1 fun hm => hc.2.2 (hsymbols hm)

theorem TextToken.reads (hs : TextToken s) (hfits : LeadFits s) (h : Ends follow) :
    Reads lexicon token s follow (text (String.ofList s)) := by
  have hdots : longest [".."] (s ++ follow) = none :=
    h.longest_dots fun hp => hs.no_dots hp.isInfix
  have hnumber : Numeral.read (s ++ follow) = Numeral.read s := h.clear.read_append s
  cases hread : Numeral.read s with
  | none => exact reads_token_text hs.toUnbroken hdots (hnumber.trans hread) hs.not_word h
  | some n =>
    obtain ⟨hvalid, rest, rfl, hstops⟩ := Numeral.valid_of_read hread
    have hrest : rest ≠ [] := by
      rintro rfl
      exact hs.not_number n hvalid (List.append_nil _)
    have hfollow : ¬ ['.', '.'] <+: rest := fun hp =>
      hs.no_dots (hp.isInfix.trans (List.suffix_append _ _).isInfix)
    refine reads_token_number hdots (by rw [hnumber, hread]; rfl) ?_
    exact reads_numberOrText_text hs.toUnbroken hrest hread (hfits n rest hvalid rfl hstops)
      hfollow h

/-- An integer that does not fit ends the reading of the token. -/
theorem TextToken.token_error (hs : TextToken s) (hread : Numeral.read s = some n)
    (hfits : ¬ n.Fits) (h : Ends follow) (hrest : t.rest = s ++ follow) :
    ∃ e t', token t = .error e t' := by
  have hdots : testAny [".."] false t = .ok none t := by
    rw [← h.longest_dots fun hp => hs.no_dots hp.isInfix, ← hrest]
    rfl
  have hread : Numeral.read t.rest = some n := by rw [hrest, h.clear.read_append, hread]
  have hfound : atNumber t = .ok true t := by
    change EStateM.Result.ok (Numeral.read t.rest).isSome t = _
    rw [hread]
    rfl
  obtain ⟨e, t', herror⟩ : ∃ e t', number t = .error e t' := by
    cases hok : number t with
    | error e t' => exact ⟨e, t', rfl⟩
    | ok m t' =>
      obtain ⟨n', hread', hm, -⟩ := number_eq_ok_iff.1 hok
      rw [hread] at hread'
      cases hread'
      exact absurd (exists_numberOf_iff.1 ⟨m, hm⟩) hfits
  refine ⟨e, t', ?_⟩
  unfold token
  rw [bind_of_ok hdots, if_neg (by simp), bind_of_ok hfound, if_pos rfl]
  change (number >>= _) t = _
  exact bind_of_error herror

end

/-- A token that is neither a number nor a boolean and has no two dots in it is read as text,
wherever a value may end behind it, unless it begins with an integer beyond 64 bits: then it
is an error. -/
theorem scan_textToken {s follow : List Char} (hs : TextToken s) (hfollow : Ends follow)
    {t : Scanner} (hlexicon : t.lexicon = lexicon) (hrest : t.rest = s ++ follow) :
    (LeadFits s → ArgValue.scan t = .ok (text (String.ofList s)) (t.advance s.length)) ∧
      (¬ LeadFits s → ∃ e t', ArgValue.scan t = .error e t') := by
  rw [hs.scan_eq_token hlexicon hrest]
  refine ⟨fun hfits => hs.reads hfits hfollow t hlexicon hrest, fun hfits => ?_⟩
  rw [leadFits_iff] at hfits
  push Not at hfits
  obtain ⟨n, hread, hn⟩ := hfits
  exact hs.token_error hread hn hfollow hrest

/-- A number, a point and a boolean in one token. -/
theorem scan_textToken_mixed :
    let s := "-12.5.true".toList
    let follow := " ,c=1]".toList
    let t := Scanner.ofText lexicon (String.ofList (s ++ follow))
    TextToken s ∧ Ends follow ∧ t.rest = s ++ follow ∧ LeadFits s ∧
      ArgValue.scan t = .ok (text "-12.5.true") (t.advance s.length) := by
  intro s follow t
  have hread : Numeral.read s = some ⟨some '-', ['1', '2'], some ['5']⟩ := by decide
  have hunbroken : Unbroken s := ⟨by decide, List.all_iff_forall_prop.1 (by decide)⟩
  have hs : TextToken s :=
    ⟨hunbroken, by decide +kernel, by decide, not_number_of_read hread (by decide)⟩
  have hfits : LeadFits s := leadFits_iff.2 fun n hn hpoint => by
    rw [hread] at hn
    cases hn
    cases hpoint
  have hfollow : Ends follow := by
    intro c hc
    cases hc
    exact .inl (by decide)
  have hrest : t.rest = s ++ follow := String.toList_ofList
  exact ⟨hs, hfollow, hrest, hfits, (scan_textToken hs hfollow rfl hrest).1 hfits⟩

/-- Digits beyond 64 bits with a letter behind them are no number, and no text either. -/
theorem long_digits_rejected :
    TextToken "99999999999999999999x".toList ∧
      ∃ e t', ArgValue.scan (.ofText lexicon "99999999999999999999x") = .error e t' := by
  have hread : Numeral.read "99999999999999999999x".toList =
      some ⟨none, "99999999999999999999".toList, none⟩ := by decide
  have hunbroken : Unbroken "99999999999999999999x".toList :=
    ⟨by decide, List.all_iff_forall_prop.1 (by decide)⟩
  have hs : TextToken "99999999999999999999x".toList :=
    ⟨hunbroken, by decide +kernel, by decide, not_number_of_read hread (by decide)⟩
  have hend : Ends [] := nofun
  have hbig : ¬ Numeral.Fits ⟨none, "99999999999999999999".toList, none⟩ :=
    fun h => absurd (h rfl).2 (by decide +kernel)
  have hrest : (Scanner.ofText lexicon "99999999999999999999x").rest =
      "99999999999999999999x".toList ++ [] := (List.append_nil _).symm
  refine ⟨hs, ?_⟩
  rw [hs.scan_eq_token rfl hrest]
  exact hs.token_error hread hbig hend hrest

end CommandChain.ArgValue
