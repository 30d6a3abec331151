import CommandChain.Proofs.Number.Written
import CommandChain.Proofs.Value.RoundTrip

/-!
# Floats read back as values

A float is written without its point once it is whole and not below `10 ^ 15`, and
then read as an integer; an offset behind `~` may be an integer, but only one of 64
bits. So a float is read back exactly if it is fractional or below `10 ^ 15`
(`readsBack_float_iff`), and an offset if it is fractional or below `2 ^ 63`
(`readsBack_relative_iff`).
-/

namespace CommandChain

namespace ArgValue

open Scan Number

variable {x : Float}

theorem scan_of_readsAs {v : ArgValue} {text : String} (h : ReadsAs [text.toList] v) :
    ∃ t, ArgValue.scan (.ofText lexicon text) = .ok v t := by
  have hspaced : Spaced lexicon [text.toList] [text.toList].flatten := spaced_flatten _
  rw [List.flatten_singleton] at hspaced
  have hread : Reads lexicon ArgValue.scan text.toList [] v := h.reads _ [] nofun hspaced
  exact ⟨_, hread (.ofText lexicon text) rfl (List.append_nil _).symm⟩

theorem readsBack_of_readsAs {v v' : ArgValue} (h : ReadsAs [(toString v).toList] v')
    (heq : v' == v) : ReadsBack v := by
  obtain ⟨t, hscan⟩ := scan_of_readsAs h
  exact ⟨v', t, hscan, heq⟩

/-- A number with a point is read as a float. -/
theorem readsAs_numeral {n : Numeral} {x : Float} (hn : n.Valid)
    (hvalue : numberOf n = some ⟨x, none⟩) : ReadsAs [n.chars] (float x) := by
  obtain ⟨c, w, hcw, hc⟩ := hn.head
  exact readsAs_token ⟨c, w, hcw, plain_of_startsNumber hc⟩
    fun _ h => reads_token_numeral hn hvalue h

/-! ## Texts -/

/-- The number is fractional, or small enough to be written with a point. -/
def KeepsPoint (x : Float) : Prop := isWhole x → x.abs < 1e15

/-- The text of a float has a point as long as the float keeps it. -/
theorem exists_floatText (hx : x.isFinite) : ∃ n : Numeral, n.Valid ∧
    (floatText x).toList = n.chars ∧ (KeepsPoint x → numberOf n = some ⟨x, none⟩) ∧
      (¬ KeepsPoint x → PlainNumber x n) := by
  obtain ⟨m, e, h⟩ := exists_magnitude hx
  unfold floatText
  rw [String.toList_ofList]
  by_cases hfixed : isWhole x ∧ x.abs < 1e15
  · obtain ⟨n, hn, hchars, hvalue⟩ := exists_fixed h hfixed.1
    rw [if_pos (by simpa using hfixed)]
    exact ⟨n, hn, hchars, fun _ => hvalue, fun hnot => absurd (fun _ => hfixed.2) hnot⟩
  · obtain ⟨n, hn⟩ := exists_plain h
    rw [if_neg (by simpa using hfixed)]
    refine ⟨n, hn.valid, hn.chars, fun hkeeps => hn.fractional ?_, fun _ => hn⟩
    exact Bool.eq_false_iff.2 fun hwhole => hfixed ⟨hwhole, hkeeps hwhole⟩

theorem isFinite_of_floatText {n : Numeral} (hn : n.Valid) (h : (floatText x).toList = n.chars) :
    x.isFinite := by
  unfold floatText at h
  rw [String.toList_ofList] at h
  split at h
  · next hfixed =>
    have hwhole : isWhole x := by
      rw [Bool.and_eq_true] at hfixed
      exact hfixed.1
    rw [isFinite_eq]
    unfold isWhole at hwhole
    cases hm : magnitude? x with
    | none => rw [hm] at hwhole; cases hwhole
    | some _ => rfl
  · exact isFinite_of_plain hn h

/-! ## Values -/

/-- A float is read back exactly if it keeps its point. -/
theorem readsBack_float_iff (x : Float) :
    ReadsBack (float x) ↔ x.isFinite ∧ (isWhole x → x.abs < 1e15) := by
  constructor
  · rintro ⟨v, t', hscan, heq⟩
    obtain ⟨x', rfl⟩ : ∃ x', v = float x' := by
      cases v <;> first | exact ⟨_, rfl⟩ | cases heq
    obtain ⟨n', hn', hchars', hvalue'⟩ := numeral_of_scan rfl (floatText_chars x) hscan
    have hx := isFinite_of_floatText hn' hchars'
    obtain ⟨n, hn, hchars, -, hnot⟩ := exists_floatText hx
    obtain rfl := hn.eq_of_chars hn' (hchars.symm.trans hchars')
    refine ⟨hx, by_contra fun hkeeps => ?_⟩
    have hplain := hnot hkeeps
    have hwhole : isWhole x := by_contra fun hw => hkeeps fun hw' => absurd hw' hw
    obtain ⟨i, hi⟩ := hplain.small hwhole (hplain.fits hvalue' hwhole)
    rw [hi] at hvalue'
    cases hvalue'
  · rintro ⟨hx, hkeeps⟩
    obtain ⟨n, hn, hchars, hvalue, -⟩ := exists_floatText hx
    have hread : ReadsAs [n.chars] (float x) := readsAs_numeral hn (hvalue hkeeps)
    rw [← hchars] at hread
    exact readsBack_of_readsAs hread (beq_self hx)

/-- The text of a float is read as a number exactly if the float is fractional or below
`2 ^ 63`. -/
theorem exists_readable (hx : x.isFinite) : ∃ n : Numeral, n.Valid ∧
    (floatText x).toList = n.chars ∧
      (∀ number, numberOf n = some number → isWhole x → x.abs < 9223372036854775808) ∧
      ((isWhole x → x.abs < 9223372036854775808) →
        ∃ integer, numberOf n = some ⟨x, integer⟩) := by
  obtain ⟨m, e, hm⟩ := exists_magnitude hx
  obtain ⟨n, hn, hchars, hkept, hplain⟩ := exists_floatText hx
  refine ⟨n, hn, hchars, fun number hvalue hwhole => ?_, fun hsmall => ?_⟩
  · by_cases hkeeps : KeepsPoint x
    · exact abs_lt_of_lt_1e15 hm (hkeeps hwhole)
    · exact (hplain hkeeps).fits hvalue hwhole
  · by_cases hkeeps : KeepsPoint x
    · exact ⟨none, hkept hkeeps⟩
    · obtain ⟨integer, hvalue, -⟩ := (hplain hkeeps).exists_number hsmall
      exact ⟨integer, hvalue⟩

/-- An offset is read back exactly if it is fractional or below `2 ^ 63`. -/
theorem readsBack_relative_iff (x : Float) :
    ReadsBack (relative x) ↔ x.isFinite ∧ (isWhole x → x.abs < 9223372036854775808) := by
  have htext : (toString (relative x)).toList = '~' :: offsetDigits x := toString_relative x
  by_cases hzero : x == 0
  · -- Nothing is written behind the mark.
    obtain ⟨hfinite, hsmall⟩ := finite_of_beq_zero hzero
    refine iff_of_true ?_ ⟨hfinite, fun _ => hsmall⟩
    have hread : ReadsAs [['~']] (relative 0) :=
      readsAs_word (by decide) (by decide) fun _ _ h => reads_relativeScan_nil h
    have heq : (0 : Float) == x := BEq.symm hzero
    have hdigits : offsetDigits x = [] := if_pos hzero
    rw [← hdigits, ← htext] at hread
    exact readsBack_of_readsAs hread heq
  have hdigits : offsetDigits x = (floatText x).toList := if_neg hzero
  constructor
  · intro h
    obtain ⟨x', heq, ⟨-, rfl⟩ | ⟨n', number, hn', hchars', hvalue', rfl⟩⟩ := h.relative_cases
    · have heq : (0 : Float) == x := heq
      exact absurd (BEq.symm heq) hzero
    rw [hdigits] at hchars'
    have hx := isFinite_of_floatText hn' hchars'
    obtain ⟨n, hn, hchars, hbound, -⟩ := exists_readable hx
    obtain rfl := hn.eq_of_chars hn' (hchars.symm.trans hchars')
    exact ⟨hx, hbound number hvalue'⟩
  · rintro ⟨hx, hsmall⟩
    obtain ⟨n, hn, hchars, -, hread⟩ := exists_readable hx
    obtain ⟨integer, hvalue⟩ := hread hsmall
    have hread : ReadsAs ['~' :: n.chars] (relative x) :=
      readsAs_word (by decide) (by decide) fun _ _ h => reads_relativeScan_numeral hn hvalue h
    rw [← hchars, ← hdigits, ← htext] at hread
    exact readsBack_of_readsAs hread (beq_self hx)

end ArgValue

end CommandChain
