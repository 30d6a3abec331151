import CommandChain.Proofs.Scanner.Numeral

/-!
# Ranges read

A range is written as an integer, as two integers with dots between them, or with one of the
two missing (`IntRange.Written`). Each text of this form is read as the range it stands for
(`reads_written`), and a range is read from no other text (`range_ok`).

The dots end a number that stands before them, since no digit follows the first of them; and
no number begins with dots, so what stands first tells whether there is a lower bound.
-/

namespace CommandChain

namespace IntRange

/-- The text of a bound that may be missing. -/
inductive WritesBound : List Char → Option Int64 → Prop where
  | missing : WritesBound [] none
  | written {n : Numeral} {i : Int64} : n.Writes i → WritesBound n.chars (some i)

/-- The texts of ranges. -/
inductive Written : List Char → IntRange → Prop where
  | exactly {n : Numeral} {i : Int64} : n.Writes i → Written n.chars (.exactly i)
  | between {n m : Numeral} {i j : Int64} : n.Writes i → m.Writes j →
      Written (n.chars ++ '.' :: '.' :: m.chars) ⟨some i, some j⟩
  | atLeast {n : Numeral} {i : Int64} : n.Writes i → Written (n.chars ++ ['.', '.']) ⟨some i, none⟩
  | atMost {n : Numeral} {i : Int64} : n.Writes i → Written ('.' :: '.' :: n.chars) ⟨none, some i⟩

variable {text : List Char} {r : IntRange}

theorem Written.bounded (h : Written text r) : r.min.isSome ∨ r.max.isSome := by
  cases h with
  | exactly => exact .inl rfl
  | between => exact .inl rfl
  | atLeast => exact .inl rfl
  | atMost => exact .inr rfl

theorem Written.ne_nil (h : Written text r) : text ≠ [] := by
  cases h with
  | exactly hn =>
    obtain ⟨c, w, hchars, -⟩ := hn.valid.head
    rw [hchars]
    exact List.cons_ne_nil c w
  | between | atLeast => exact List.append_ne_nil_of_right_ne_nil _ (List.cons_ne_nil _ _)
  | atMost => exact List.cons_ne_nil _ _

theorem Written.startsNumber (h : Written text r) : ∀ c ∈ text, ArgValue.startsNumber c := by
  have hdots : ∀ c ∈ ['.', '.'], ArgValue.startsNumber c := by
    intro c hc
    obtain rfl : c = '.' := by simpa using hc
    rfl
  cases h with
  | exactly hn => exact hn.valid.startsNumber
  | between hn hm =>
    exact List.forall_mem_append.2
      ⟨hn.valid.startsNumber, List.forall_mem_append.2 ⟨hdots, hm.valid.startsNumber⟩⟩
  | atLeast hn => exact List.forall_mem_append.2 ⟨hn.valid.startsNumber, hdots⟩
  | atMost hn => exact List.forall_mem_append.2 ⟨hdots, hn.valid.startsNumber⟩

end IntRange

namespace Scan

open IntRange

variable {lexicon : Lexicon} {text low high follow : List Char} {r : IntRange}
  {min max : Option Int64}

/-! ## From text to range -/

/-- Reading goes on with the lower bound, or with nothing where the dots come first. -/
theorem Reads.lower {β : Type} {k : Option Int64 → Scan β} {b : β} (hmin : WritesBound low min)
    (hk : Reads lexicon (k min) ('.' :: '.' :: text) follow b) :
    Reads lexicon (testAny [".."] false >>= fun dots =>
      if dots.isSome then pure none >>= k else (some <$> int) >>= k)
      (low ++ '.' :: '.' :: text) follow b := by
  refine Reads.bind_nil (reads_testAny _) ?_
  cases hmin with
  | missing =>
    have hdots : longest [".."] ('.' :: '.' :: text ++ follow) = some ".." := by
      rw [longest_singleton (by decide)]
      exact if_pos (by simp [List.isPrefixOf])
    simp only [List.nil_append, hdots]
    exact (reads_pure none).bind_nil hk
  | written hn =>
    simp only [List.append_assoc, longest_dots_number hn.valid]
    exact Reads.bind (reads_int_of_writes hn (Numeral.stopsAt_dots _ _)).map hk

/-- Reading goes on with the upper bound, or with nothing where no number stands. -/
theorem Reads.upper {β : Type} {k : Option Int64 → Scan β} {b : β} (hmax : WritesBound high max)
    (h : Numeral.Clear follow) (hk : Reads lexicon (k max) [] follow b) :
    Reads lexicon (atNumber >>= fun found =>
      if found then (some <$> int) >>= k else pure none >>= k) high follow b := by
  refine Reads.bind_nil reads_atNumber ?_
  cases hmax with
  | missing =>
    simp only [List.nil_append, h.read]
    exact (reads_pure none).bind_nil hk
  | written hn =>
    simp only [Numeral.read_chars_append hn.valid (h.stopsAt _)]
    exact Reads.bind_pure (reads_int_of_writes hn (h.stopsAt _)).map hk

/-- Dots are read with the bounds around them, if there is one. -/
theorem reads_bounds (hmin : WritesBound low min) (hmax : WritesBound high max)
    (hr : min.isSome ∨ max.isSome) (h : Numeral.Clear follow) :
    Reads lexicon range (low ++ '.' :: '.' :: high) follow ⟨min, max⟩ := by
  unfold range
  refine Reads.lower hmin ?_
  have hdots : Reads lexicon (accept ".." false) ['.', '.'] (high ++ follow) true :=
    reads_accept (lexicon.margin_nil false) (by decide) nofun
  refine hdots.bind (Reads.upper hmax h ?_)
  dsimp only
  rw [if_neg]
  · exact reads_pure _
  · cases min <;> cases max <;> simp_all

theorem reads_written (hw : Written text r) (h : Numeral.Clear follow) :
    Reads lexicon range text follow r := by
  cases hw with
  | exactly hn =>
    have hdots : Reads lexicon (accept ".." false) [] follow false :=
      reads_accept_none (lexicon.margin_nil false) (by decide) nofun h.not_dots
    unfold range
    refine Reads.bind_nil (reads_testAny _) ?_
    rw [longest_dots_number hn.valid]
    refine Reads.bind_pure (reads_int_of_writes hn (h.stopsAt _)).map ?_
    exact hdots.bind_nil (reads_pure _)
  | between hn hm => exact reads_bounds (.written hn) (.written hm) (.inl rfl) h
  | atLeast hn => exact reads_bounds (.written hn) .missing (.inl rfl) h
  | atMost hn => exact reads_bounds .missing (.written hn) (.inr rfl) h

/-! ## Ranges as they are printed -/

/-- The text of a bound as it is printed. -/
def boundText (bound : Option Int64) : List Char := ((bound.map toString).getD "").toList

theorem toList_range (r : IntRange) :
    (toString r).toList = boundText r.min ++ ('.' :: '.' :: boundText r.max) := by
  simp [toString, IntRange.toString, boundText]

/-- A range is printed as it is written, with dots also between equal bounds. -/
theorem written_toString (hr : r.min.isSome ∨ r.max.isSome) : Written (toString r).toList r := by
  have hchars (i : Int64) : boundText (some i) = (Numeral.ofInt i.toInt).chars :=
    (Numeral.chars_ofInt i.toInt).symm
  obtain ⟨min, max⟩ := r
  rw [toList_range]
  cases min with
  | none =>
    cases max with
    | none => simp at hr
    | some j => rw [hchars]; exact .atMost (Numeral.writes_ofInt j)
  | some i =>
    rw [hchars]
    cases max with
    | none => exact .atLeast (Numeral.writes_ofInt i)
    | some j => rw [hchars]; exact .between (Numeral.writes_ofInt i) (Numeral.writes_ofInt j)

theorem reads_range (hr : r.min.isSome ∨ r.max.isSome) (h : Numeral.Clear follow) :
    Reads lexicon range (toString r).toList follow r :=
  reads_written (written_toString hr) h

/-! ## From range to text -/

section

variable {t t' : Scanner}

theorem testAny_ok {words : List String} {found : Option String}
    (h : testAny words false t = .ok found t') : found = longest words t.rest ∧ t' = t := by
  cases h
  exact ⟨rfl, rfl⟩

/-- Dots are accepted exactly where they stand. -/
theorem accept_dots_ok {found : Bool} (h : accept ".." false t = .ok found t') :
    (found = true ∧ t.Passes ['.', '.'] t') ∨
      (found = false ∧ ¬ ['.', '.'] <+: t.rest ∧ t' = t) := by
  rw [accept_eq (by decide)] at h
  split at h
  · next hdots =>
    cases h
    exact .inl ⟨rfl, List.isPrefixOf_iff_prefix.1 hdots, rfl⟩
  · next hdots =>
    cases h
    exact .inr ⟨rfl, fun hp => hdots (List.isPrefixOf_iff_prefix.2 hp), rfl⟩

/-- What is read behind the dots: an upper bound, or nothing. -/
theorem upper_ok {k : Option Int64 → Scan IntRange} (h : (atNumber >>= fun found =>
      if found then (some <$> int) >>= k else pure none >>= k) t = .ok r t') :
    ∃ w max t₁, WritesBound w max ∧ t.Passes w t₁ ∧ k max t₁ = .ok r t' := by
  obtain ⟨found, t₁, hfound, h₁⟩ := bind_eq_ok_iff.1 h
  cases hfound
  split at h₁
  · obtain ⟨max, t₂, hmax, h₂⟩ := bind_eq_ok_iff.1 h₁
    obtain ⟨i, hi, rfl⟩ := map_eq_ok_iff.1 hmax
    obtain ⟨n, hn, hpass⟩ := int_ok hi
    exact ⟨n.chars, some i, t₂, .written hn, hpass, h₂⟩
  · obtain ⟨max, t₂, hmax, h₂⟩ := bind_eq_ok_iff.1 h₁
    cases hmax
    exact ⟨[], none, t, .missing, t.passes_nil, h₂⟩

/-- A range is read from a text of its form, whatever stands behind it. -/
theorem range_ok (h : range t = .ok r t') : ∃ w, Written w r ∧ t.Passes w t' := by
  obtain ⟨dots, t₁, hdots, h₁⟩ := bind_eq_ok_iff.1 h
  obtain ⟨rfl, rfl⟩ := testAny_ok hdots
  split at h₁
  · next hd =>
    obtain ⟨min, t₂, hmin, h₂⟩ := bind_eq_ok_iff.1 h₁
    cases hmin
    obtain ⟨found, t₃, hfound, h₃⟩ := bind_eq_ok_iff.1 h₂
    rcases accept_dots_ok hfound with ⟨rfl, hdots⟩ | ⟨-, hnot, -⟩
    · obtain ⟨w, max, t₄, hw, hpass, h₄⟩ := upper_ok h₃
      cases hw with
      | missing => cases h₄
      | written hn => cases h₄; exact ⟨_, .atMost hn, hdots.trans hpass⟩
    · rw [longest_singleton (by decide)] at hd
      split at hd
      · next hprefix => exact absurd (List.isPrefixOf_iff_prefix.1 hprefix) hnot
      · cases hd
  · obtain ⟨min, t₂, hmin, h₂⟩ := bind_eq_ok_iff.1 h₁
    obtain ⟨i, hi, rfl⟩ := map_eq_ok_iff.1 hmin
    obtain ⟨n, hn, hlower⟩ := int_ok hi
    obtain ⟨found, t₃, hfound, h₃⟩ := bind_eq_ok_iff.1 h₂
    rcases accept_dots_ok hfound with ⟨rfl, hdots⟩ | ⟨rfl, -, rfl⟩
    · obtain ⟨w, max, t₄, hw, hpass, h₄⟩ := upper_ok h₃
      have hall := hlower.trans (hdots.trans hpass)
      cases hw with
      | missing => cases h₄; exact ⟨_, .atLeast hn, hall⟩
      | written hm => cases h₄; exact ⟨_, .between hn hm, hall⟩
    · cases h₃
      exact ⟨_, .exactly hn, hlower⟩

end

end Scan

end CommandChain
