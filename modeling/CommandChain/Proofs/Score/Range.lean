import CommandChain.Proofs.Scanner.Range
import CommandChain.Score.Access
import Mathlib.Data.List.DropRight

/-!
# The grammar of ranges

A range is read from a whole text if the text is of the form `IntRange.Written` once the
spaces and tabs at its two ends are off, and from no other text; the blanks inside are not
passed over. Every range with a bound is printed in that form: `IntRange.range_grammar`.
-/

namespace CommandChain.IntRange

open Scan

/-- What may stand around a range. -/
def isMargin (c : Char) : Bool := c == ' ' || c == '\t'

/-- The text without the spaces and tabs at its two ends. -/
def stripped (s : List Char) : List Char := (s.dropWhile isMargin).rdropWhile isMargin

/-- The characters are spaces and tabs. -/
def Margin (b : List Char) : Prop := ∀ c ∈ b, isMargin c

variable {lead trail w : List Char}

theorem blanks_iff_margin : ScoreAccess.lexicon.Blanks w ↔ Margin w := by
  simp [Lexicon.Blanks, Margin, isMargin, ScoreAccess.lexicon]

theorem exists_margins (s : List Char) :
    ∃ lead trail, Margin lead ∧ Margin trail ∧ s = lead ++ (stripped s ++ trail) := by
  refine ⟨s.takeWhile isMargin, (s.dropWhile isMargin).rtakeWhile isMargin, ?_, ?_, ?_⟩
  · exact fun c hc => List.mem_takeWhile_imp hc
  · exact fun c hc => List.mem_rtakeWhile_imp hc
  · rw [stripped, List.rdropWhile_append_rtakeWhile, List.takeWhile_append_dropWhile]

theorem dropWhile_of_solid (hw : ∀ c ∈ w, isMargin c = false) : w.dropWhile isMargin = w := by
  cases w with
  | nil => rfl
  | cons c w => exact List.dropWhile_cons_of_neg (by simp [hw c List.mem_cons_self])

theorem stripped_append (hlead : Margin lead) (htrail : Margin trail)
    (hw : ∀ c ∈ w, isMargin c = false) : stripped (lead ++ (w ++ trail)) = w := by
  have hend : (w ++ trail).rdropWhile isMargin = w := by
    rw [List.rdropWhile, List.reverse_append,
      List.dropWhile_append_of_pos fun c hc => htrail c (List.mem_reverse.1 hc),
      dropWhile_of_solid fun c hc => hw c (List.mem_reverse.1 hc), List.reverse_reverse]
  rw [stripped, List.dropWhile_append_of_pos hlead]
  cases w with
  | nil =>
    rw [List.nil_append, List.dropWhile_eq_nil_iff.2 htrail]
    rfl
  | cons c w =>
    rw [List.cons_append, List.dropWhile_cons_of_neg (by simp [hw c List.mem_cons_self])]
    exact hend

variable {text : String} {r : IntRange}

theorem startsNumber_of_isMargin {c : Char} (h : isMargin c) : ArgValue.startsNumber c = false := by
  have hcases : c = ' ' ∨ c = '\t' := by simpa only [isMargin, Bool.or_eq_true, beq_iff_eq] using h
  rcases hcases with rfl | rfl <;> rfl

theorem Written.solid (h : Written w r) : ∀ c ∈ w, isMargin c = false := by
  intro c hc
  by_contra hmargin
  have hnot := startsNumber_of_isMargin (Bool.not_eq_false _ ▸ hmargin)
  rw [h.startsNumber c hc] at hnot
  cases hnot

theorem Written.solid_append (h : Written w r) : ScoreAccess.lexicon.Solid (w ++ trail) := by
  refine Lexicon.Solid.append (fun c hc hblank => ?_) h.ne_nil trail
  have hmargin := blanks_iff_margin.1 (List.forall_mem_singleton.2 hblank) c (by simp)
  rw [h.solid c (List.mem_of_mem_head? hc)] at hmargin
  cases hmargin

theorem written_of_parse (h : IntRange.parse text = .ok r) : Written (stripped text.toList) r := by
  obtain ⟨t, hrun⟩ := Scan.run_eq_ok_iff.1 h
  obtain ⟨_, t₁, hskip, h₁⟩ := bind_eq_ok_iff.1 hrun
  cases hskip
  obtain ⟨r', t₂, hrange, h₂⟩ := bind_eq_ok_iff.1 h₁
  obtain ⟨_, t₃, hend, h₃⟩ := bind_eq_ok_iff.1 h₂
  cases h₃
  obtain ⟨w, hw, ⟨rest, hrest⟩, rfl⟩ := range_ok hrange
  obtain ⟨hblanks, -⟩ := expectEnd_eq_ok_iff.1 hend
  rw [Scanner.rest_advance_of_append hrest.symm] at hblanks
  obtain ⟨b, hb, htext, -⟩ := (Scanner.ofText ScoreAccess.lexicon text).exists_skipBlanks
  have hchars : text.toList = b ++ (w ++ rest) := by
    rw [hrest]
    exact htext
  rw [hchars, stripped_append (blanks_iff_margin.1 hb) (blanks_iff_margin.1 hblanks) hw.solid]
  exact hw

theorem parse_of_written (hw : Written (stripped text.toList) r) : IntRange.parse text = .ok r := by
  obtain ⟨lead, trail, hlead, htrail, htext⟩ := exists_margins text.toList
  generalize stripped text.toList = w at hw htext
  have hclear : Numeral.Clear trail :=
    fun c hc => startsNumber_of_isMargin (htrail c (List.mem_of_mem_head? hc))
  have hread : Reads ScoreAccess.lexicon (skipBlanks >>= fun _ => range >>= fun r =>
      expectEnd >>= fun _ => pure r) (lead ++ (w ++ trail)) [] r := by
    refine Reads.bind (reads_skipBlanks (blanks_iff_margin.2 hlead) ?_) ?_
    · rw [List.append_nil]
      exact hw.solid_append
    · refine Reads.bind (reads_written hw ?_) ?_
      · rwa [List.append_nil]
      · exact (reads_expectEnd (blanks_iff_margin.2 htrail)).bind_pure (reads_pure r)
  rw [IntRange.parse, Scan.run_eq_ok_iff]
  exact ⟨_, hread (.ofText ScoreAccess.lexicon text) rfl (htext.trans (List.append_nil _).symm)⟩

theorem parse_eq_ok_iff : IntRange.parse text = .ok r ↔ Written (stripped text.toList) r :=
  ⟨written_of_parse, parse_of_written⟩

theorem reparsed_iff_bounded (r : IntRange) :
    IntRange.parse (toString r) = .ok r ↔ r.min.isSome ∨ r.max.isSome := by
  rw [parse_eq_ok_iff]
  refine ⟨Written.bounded, fun hr => ?_⟩
  have hw := written_toString hr
  have hstripped : stripped ([] ++ ((toString r).toList ++ [])) = (toString r).toList :=
    stripped_append nofun nofun hw.solid
  rw [List.nil_append, List.append_nil] at hstripped
  rwa [hstripped]

/-- A range is read from a text exactly if the text, without the spaces and tabs at its two
ends, is an integer, two integers with dots between them, or an integer and dots, each integer
of 64 bits; the bounds are the integers written. A range is read back from the text it is
printed as exactly if it has a bound. -/
theorem range_grammar :
    (∀ (text : String) (r : IntRange),
      IntRange.parse text = .ok r ↔ Written (stripped text.toList) r) ∧
    ∀ r : IntRange, IntRange.parse (toString r) = .ok r ↔ r.min.isSome ∨ r.max.isSome :=
  ⟨fun _ _ => parse_eq_ok_iff, reparsed_iff_bounded⟩

example : IntRange.parse " 5..+6\t" = .ok ⟨some 5, some 6⟩ := by decide +kernel

/-- The point behind the dots belongs to a number, which is no integer. -/
example : (IntRange.parse "1...5").toOption = none := by decide +kernel

end CommandChain.IntRange
