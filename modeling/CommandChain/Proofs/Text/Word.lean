import CommandChain.Text.Blank
import Mathlib.Data.List.TakeWhile

/-!
# Words of a text

The first word of a text does not depend on blanks at its ends (`firstWord_trim`), and is
missing only if there is nothing but blanks (`exists_firstWord_iff`). What is trimmed off the
end of a text is trimmed off the end of its last part, if that has a word (`trimEnd_append`).

`afterLast` looks from the end, so a text in front makes no difference once the mark has been
found (`afterLast_append`).
-/

namespace CommandChain.Text

/-! ## First words -/

section

variable {a b s word : List Char} {c : Char}

theorem firstWord_cons_of_blank (hc : isBlank c) : firstWord (c :: s) = firstWord s := by
  simp only [firstWord, trimStart, List.dropWhile_cons_of_pos hc]

theorem firstWord_cons_of_not_blank (hc : ¬ isBlank c) :
    firstWord (c :: s) = some (c :: s.takeWhile (!isBlank ·)) := by
  have htake : (c :: s).takeWhile (!isBlank ·) = c :: s.takeWhile (!isBlank ·) :=
    List.takeWhile_cons_of_pos (by simpa using hc)
  simp only [firstWord, trimStart, List.dropWhile_cons_of_neg hc, htake]

theorem firstWord_append_left (ha : ∀ c ∈ a, isBlank c) : firstWord (a ++ s) = firstWord s := by
  induction a with
  | nil => rfl
  | cons c a ih =>
    obtain ⟨hc, ha⟩ := List.forall_mem_cons.1 ha
    rw [List.cons_append, firstWord_cons_of_blank hc, ih ha]

theorem firstWord_of_blank (hs : ∀ c ∈ s, isBlank c) : firstWord s = none := by
  rw [← List.append_nil s, firstWord_append_left hs]
  rfl

/-- A word goes on up to the first blank. -/
theorem takeWhile_append_blank (hb : ∀ c ∈ b.head?, isBlank c) (s : List Char) :
    (s ++ b).takeWhile (!isBlank ·) = s.takeWhile (!isBlank ·) := by
  induction s with
  | nil =>
    cases b with
    | nil => rfl
    | cons c b => exact List.takeWhile_cons_of_neg (by simpa using hb c rfl)
  | cons c s ih => simp only [List.cons_append, List.takeWhile_cons, ih]

theorem firstWord_append_right (hb : ∀ c ∈ b, isBlank c) : firstWord (s ++ b) = firstWord s := by
  induction s with
  | nil => exact firstWord_of_blank hb
  | cons c s ih =>
    by_cases hc : isBlank c
    · rw [List.cons_append, firstWord_cons_of_blank hc, firstWord_cons_of_blank hc, ih]
    · rw [List.cons_append, firstWord_cons_of_not_blank hc, firstWord_cons_of_not_blank hc,
        takeWhile_append_blank fun c hc => hb c (List.mem_of_mem_head? hc)]

theorem exists_firstWord_iff : (∃ word, firstWord s = some word) ↔ ∃ c ∈ s, ¬ isBlank c := by
  constructor
  · rintro ⟨word, h⟩
    by_contra hs
    have hblank : ∀ c ∈ s, isBlank c := fun c hc => by_contra fun hne => hs ⟨c, hc, hne⟩
    rw [firstWord_of_blank hblank] at h
    cases h
  · rintro ⟨c, hc, hblank⟩
    induction s with
    | nil => cases hc
    | cons d s ih =>
      by_cases hd : isBlank d
      · rw [firstWord_cons_of_blank hd]
        refine ih ((List.mem_cons.1 hc).resolve_left ?_)
        rintro rfl
        exact hblank hd
      · exact ⟨_, firstWord_cons_of_not_blank hd⟩

theorem firstWord_word (hword : ∀ c ∈ word, ¬ isBlank c) (hne : word ≠ [])
    (hb : ∀ c ∈ b.head?, isBlank c) : firstWord (word ++ b) = some word := by
  obtain ⟨c, word, rfl⟩ := List.exists_cons_of_ne_nil hne
  obtain ⟨hc, hrest⟩ := List.forall_mem_cons.1 hword
  have hall : word.takeWhile (!isBlank ·) = word :=
    List.takeWhile_eq_self_iff.2 fun c hc => by simpa using hrest c hc
  rw [List.cons_append, firstWord_cons_of_not_blank hc, takeWhile_append_blank hb, hall]

end

/-! ## Ends of a text -/

section

variable {a b s : List Char}

theorem exists_trimStart (s : List Char) : ∃ a, s = a ++ trimStart s ∧ ∀ c ∈ a, isBlank c :=
  ⟨_, List.takeWhile_append_dropWhile.symm, fun _ => List.mem_takeWhile_imp⟩

theorem exists_trimEnd (s : List Char) : ∃ b, s = trimEnd s ++ b ∧ ∀ c ∈ b, isBlank c := by
  obtain ⟨b, hb, hblank⟩ := exists_trimStart s.reverse
  refine ⟨b.reverse, ?_, fun c hc => hblank c (List.mem_reverse.1 hc)⟩
  have h := congrArg List.reverse hb
  rwa [List.reverse_reverse, List.reverse_append] at h

@[simp] theorem firstWord_trimEnd (s : List Char) : firstWord (trimEnd s) = firstWord s := by
  obtain ⟨b, hs, hb⟩ := exists_trimEnd s
  conv => rhs; rw [hs, firstWord_append_right hb]

@[simp] theorem firstWord_trim (s : List Char) : firstWord (trim s) = firstWord s := by
  obtain ⟨a, hs, ha⟩ := exists_trimStart s
  conv => rhs; rw [hs, firstWord_append_left ha]
  exact firstWord_trimEnd (trimStart s)

theorem trimEnd_append (hb : ∃ c ∈ b, ¬ isBlank c) : trimEnd (a ++ b) = a ++ trimEnd b := by
  obtain ⟨c, hc, hblank⟩ := hb
  have hne : ¬ (b.reverse.dropWhile isBlank).isEmpty := by
    rw [List.isEmpty_iff, List.dropWhile_eq_nil_iff]
    exact fun h => hblank (h c (List.mem_reverse.2 hc))
  rw [trimEnd, List.reverse_append, List.dropWhile_append, if_neg hne, List.reverse_append,
    List.reverse_reverse, trimEnd]

/-- A text that is trimmed does not end in a blank. -/
theorem not_blank_of_getLast {c : Char} (h : (trimEnd s).getLast? = some c) : ¬ isBlank c := by
  have hhead := List.head?_dropWhile_not isBlank s.reverse
  rw [trimEnd, List.getLast?_reverse] at h
  rw [h] at hhead
  simpa using hhead

end

/-! ## Marks -/

section

variable {mark s tail : List Char}

theorem afterLast_append (h : afterLast mark s = some tail) (a : List Char) :
    afterLast mark (a ++ s) = some tail := by
  induction a with
  | nil => exact h
  | cons c a ih => simp only [List.cons_append, afterLast, ih]

theorem exists_of_afterLast (h : afterLast mark s = some tail) : ∃ a, s = a ++ mark ++ tail := by
  induction s generalizing tail with
  | nil =>
    cases mark with
    | nil => cases h; exact ⟨[], rfl⟩
    | cons c mark => cases h
  | cons c s ih =>
    rw [afterLast] at h
    cases hs : afterLast mark s with
    | some tail' =>
      rw [hs] at h
      cases h
      obtain ⟨a, ha⟩ := ih hs
      exact ⟨c :: a, by rw [ha]; rfl⟩
    | none =>
      rw [hs] at h
      obtain ⟨hmark, h⟩ := Option.ite_none_right_eq_some.1 h
      obtain ⟨t, ht⟩ := List.isPrefixOf_iff_prefix.1 hmark
      rw [← ht, List.drop_left] at h
      cases h
      exact ⟨[], ht.symm⟩

end

end CommandChain.Text
