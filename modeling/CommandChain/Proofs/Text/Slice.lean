import CommandChain.Text.Blank
import Mathlib.Data.List.Infix

/-!
# Slices by bytes

`splitAt?` cuts a text at a byte offset, if there is a character boundary there
(`splitAt?_eq_some_iff`). These are the valid positions of the text as a string
(`isValid_iff`).
-/

namespace CommandChain.Text

/-- The text in front of a byte offset and the text behind it, unless the offset is inside a
character or beyond the end. -/
def splitAt? : List Char → Nat → Option (List Char × List Char)
  | s, 0 => some ([], s)
  | [], _ + 1 => none
  | c :: s, n + 1 =>
    if c.utf8Size ≤ n + 1 then (splitAt? s (n + 1 - c.utf8Size)).map fun (a, b) => (c :: a, b)
    else none

section

variable {s a b : List Char} {n : Nat}

theorem byteLength_cons_ne_zero (c : Char) (s : List Char) : byteLength (c :: s) ≠ 0 := by
  have hpos := c.utf8Size_pos
  rw [byteLength]
  omega

theorem splitAt?_byteLength (a b : List Char) : splitAt? (a ++ b) (byteLength a) = some (a, b) := by
  induction a with
  | nil => cases b <;> rfl
  | cons c a ih =>
    obtain ⟨n, hn⟩ := Nat.exists_eq_succ_of_ne_zero (byteLength_cons_ne_zero c a)
    have hle : c.utf8Size ≤ n + 1 := by rw [byteLength] at hn; omega
    have hrest : n + 1 - c.utf8Size = byteLength a := by rw [byteLength] at hn; omega
    rw [hn, List.cons_append, splitAt?, if_pos hle, hrest, ih]
    rfl

/-- An offset can be cut at exactly if some characters take that many bytes. -/
theorem splitAt?_eq_some_iff : splitAt? s n = some (a, b) ↔ s = a ++ b ∧ byteLength a = n := by
  constructor
  · intro h
    fun_induction splitAt? s n generalizing a with
    | case1 s => cases h; exact ⟨rfl, rfl⟩
    | case2 n => cases h
    | case3 c s n hle ih =>
      obtain ⟨⟨a', b'⟩, hsplit, heq⟩ := Option.map_eq_some_iff.1 h
      cases heq
      obtain ⟨rfl, hbytes⟩ := ih hsplit
      refine ⟨rfl, ?_⟩
      rw [byteLength, hbytes]
      omega
    | case4 c s n hle => cases h
  · rintro ⟨rfl, rfl⟩
    exact splitAt?_byteLength a b

example : splitAt? ['a', 'é'] 1 = some (['a'], ['é']) := rfl

example : splitAt? ['a', 'é'] 2 = none := rfl

/-- Of two texts at the start of a third, the one with no more characters takes no more bytes. -/
theorem byteLength_le_iff (ha : a <+: s) (hb : b <+: s) :
    byteLength a ≤ byteLength b ↔ a.length ≤ b.length := by
  constructor
  · intro h
    by_contra hlt
    obtain ⟨t, rfl⟩ := List.prefix_of_prefix_length_le hb ha (by omega)
    cases t with
    | nil => simp at hlt
    | cons c t =>
      have hne := byteLength_cons_ne_zero c t
      rw [byteLength_append] at h
      omega
  · intro h
    obtain ⟨t, rfl⟩ := List.prefix_of_prefix_length_le ha hb h
    rw [byteLength_append]
    exact Nat.le_add_right _ _

end

/-! ## Strings -/

theorem utf8ByteSize_ofList (s : List Char) : (String.ofList s).utf8ByteSize = byteLength s := by
  induction s with
  | nil => rfl
  | cons c s ih =>
    have hsplit : String.ofList (c :: s) = String.singleton c ++ String.ofList s := by
      rw [String.singleton_eq_ofList, ← String.ofList_append]
      rfl
    rw [hsplit, String.utf8ByteSize_append, String.utf8ByteSize_singleton, ih, byteLength]

theorem utf8ByteSize_eq (s : String) : s.utf8ByteSize = byteLength s.toList := by
  rw [← utf8ByteSize_ofList, String.ofList_toList]

/-- Where a string can be cut are its valid positions. -/
theorem isValid_iff (s : String) (n : Nat) :
    (⟨n⟩ : String.Pos.Raw).IsValid s ↔ ∃ a b, s.toList = a ++ b ∧ byteLength a = n := by
  rw [String.Pos.Raw.isValid_iff_exists_append]
  constructor
  · rintro ⟨a, b, rfl, hn⟩
    refine ⟨a.toList, b.toList, String.toList_append, ?_⟩
    rw [← utf8ByteSize_eq]
    exact (congrArg String.Pos.Raw.byteIdx hn).symm
  · rintro ⟨a, b, hs, rfl⟩
    refine ⟨String.ofList a, String.ofList b, ?_, ?_⟩
    · rw [← String.ofList_append, ← hs, String.ofList_toList]
    · rw [← utf8ByteSize_ofList]
      rfl

theorem utf8Size_of_isDigit {c : Char} (h : c.isDigit) : c.utf8Size = 1 := by
  have hle : c.val ≤ 57 := by
    simp only [Char.isDigit, Bool.and_eq_true, decide_eq_true_eq] at h
    exact h.2
  have h127 : c.val ≤ 127 := Nat.le_trans hle (by decide)
  exact if_pos h127

/-- Characters of one byte each. -/
theorem byteLength_of_utf8Size {s : List Char} (h : ∀ c ∈ s, c.utf8Size = 1) :
    byteLength s = s.length := by
  induction s with
  | nil => rfl
  | cons c s ih =>
    obtain ⟨hc, hs⟩ := List.forall_mem_cons.1 h
    rw [byteLength, hc, ih hs, List.length_cons, Nat.add_comm]

end CommandChain.Text
