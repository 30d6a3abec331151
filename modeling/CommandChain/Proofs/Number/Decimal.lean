import CommandChain.Number.Decimal

/-!
# Characters of written floats

A float is written with digits, a sign, a point, or the letters of `NaN` and `inf`.
-/

namespace CommandChain.Number

/-- A character of a written float. -/
def isFloatChar (c : Char) : Bool := c.isDigit || ['-', '.', 'N', 'a', 'i', 'n', 'f'].contains c

theorem isFloatChar_of_isDigit {c : Char} (h : c.isDigit) : isFloatChar c := by
  simp [isFloatChar, h]

namespace Decimal

theorem split_digits (d : Decimal) : ∀ c ∈ d.split.1 ++ d.split.2, c.isDigit := by
  intro c hc
  have hpadded : ∀ n, ∀ c ∈ List.replicate n '0' ++ Nat.toDigits 10 d.digits, c.isDigit := by
    intro n c hc
    rcases List.mem_append.1 hc with hc | hc
    · rw [List.eq_of_mem_replicate hc]
      rfl
    · exact Nat.isDigit_of_mem_toDigits (by decide) (by decide) hc
  unfold split at hc
  simp only [List.mem_append] at hc
  rcases hc with (hc | hc) | hc
  · exact hpadded _ c (List.mem_of_mem_take hc)
  · rw [List.eq_of_mem_replicate hc]
    rfl
  · exact hpadded _ c (List.mem_of_mem_drop hc)

theorem positional_chars (d : Decimal) : ∀ c ∈ d.positional, isFloatChar c := by
  intro c hc
  have hsplit := d.split_digits
  unfold positional at hc
  generalize d.split = parts at hc hsplit
  obtain ⟨whole, fraction⟩ := parts
  dsimp only at hc hsplit
  have hwhole (h : c ∈ whole) : isFloatChar c :=
    isFloatChar_of_isDigit (hsplit c (List.mem_append_left _ h))
  split at hc
  · exact hwhole hc
  · rcases List.mem_append.1 hc with hc | hc
    · exact hwhole hc
    · rcases List.mem_cons.1 hc with rfl | hc
      · rfl
      · have hmem : c ∈ fraction := by
          have := List.dropWhile_sublist (· == '0') |>.subset (List.mem_reverse.1 hc)
          exact List.mem_reverse.1 this
        exact isFloatChar_of_isDigit (hsplit c (List.mem_append_right _ hmem))

end Decimal

theorem signed_chars {write : Nat → Int → List Char} (hw : ∀ m e, ∀ c ∈ write m e, isFloatChar c)
    (x : Float) : ∀ c ∈ signed write x, isFloatChar c := by
  have hsign {body : List Char} (hbody : ∀ c ∈ body, isFloatChar c) :
      ∀ c ∈ (if isNegative x then '-' :: body else body), isFloatChar c := by
    split
    · intro c hc
      rcases List.mem_cons.1 hc with rfl | hc
      · rfl
      · exact hbody c hc
    · exact hbody
  unfold signed
  split
  · exact List.all_eq_true.1 (by decide)
  · cases magnitude? x with
    | none => exact hsign (List.all_eq_true.1 (show ['i', 'n', 'f'].all isFloatChar by decide))
    | some p => exact hsign (hw p.1 p.2)

theorem plain_chars (x : Float) : ∀ c ∈ plain x, isFloatChar c := by
  refine signed_chars (fun m e => ?_) x
  split
  · exact List.all_eq_true.1 (by decide)
  · exact Decimal.positional_chars _

theorem fixed_chars (places : Nat) (x : Float) : ∀ c ∈ fixed places x, isFloatChar c := by
  refine signed_chars (fun m e c hc => ?_) x
  have hsplit := (Decimal.atPlaces m e places).split_digits
  dsimp only at hc
  generalize (Decimal.atPlaces m e places).split = parts at hc hsplit
  have hwhole (h : c ∈ parts.1) : isFloatChar c :=
    isFloatChar_of_isDigit (hsplit c (List.mem_append_left _ h))
  split at hc
  · exact hwhole hc
  · rcases List.mem_append.1 hc with hc | hc
    · exact hwhole hc
    · rcases List.mem_cons.1 hc with rfl | hc
      · rfl
      · exact isFloatChar_of_isDigit (hsplit c (List.mem_append_right _ hc))

end CommandChain.Number
