import CommandChain.Proofs.Number.Written
import CommandChain.Proofs.Scanner.Digits

/-!
# The longest number

A text may begin with several numbers, the shorter ones standing at the start of the longer
ones. `Numeral.read` finds the longest (`Numeral.read_eq_some_iff`): a valid numeral at the
start of the text has the sign that is read, no digit in front of the point that is not read,
and digits behind a point only if all digits in front of it are its own.

What a numeral means is said by the places of its digits (`Numeral.exact`). The reader of
numbers takes the longest one for this rational number: as an integer exactly, if there is no
point, and as a float the nearest one (`Scan.number_reads_longest`). It fails if there is no
number, or if the longest one has no point and is no integer of 64 bits.
-/

namespace CommandChain

namespace Numeral

variable {n m : Numeral} {text rest : List Char}

/-! ## Which number is read -/

/-- Of the numbers that the text begins with, the longest. -/
structure LongestIn (text : List Char) (n : Numeral) : Prop where
  valid : n.Valid
  starts : n.chars <+: text
  longest : ∀ m : Numeral, m.Valid → m.chars <+: text → m.chars.length ≤ n.chars.length

theorem length_chars (n : Numeral) : n.chars.length =
    n.sign.toList.length + (n.whole.length + (fractionChars n.fraction).length) := by
  rw [chars_eq, List.length_append, List.length_append]

theorem readFraction_digits {digits : List Char} (hne : digits ≠ [])
    (hdigits : ∀ c ∈ digits, c.isDigit) (rest : List Char) :
    readFraction ('.' :: (digits ++ rest)) = some (digits ++ rest.takeWhile Char.isDigit) := by
  simp only [readFraction, List.takeWhile_append_of_pos hdigits]
  split
  · next hnil => exact absurd (List.append_eq_nil_iff.1 hnil).1 hne
  · rfl

/-- A number that begins with the text of another is read no shorter than that. -/
theorem Valid.exists_read (h : n.Valid) (rest : List Char) :
    ∃ m, read (n.chars ++ rest) = some m ∧ n.chars.length ≤ m.chars.length := by
  unfold read
  simp only [readSign_append h]
  cases hfraction : n.fraction with
  | none =>
    have hne : n.whole ≠ [] := by
      refine h.digits.resolve_right ?_
      simp [hfraction]
    have htake : (n.whole ++ rest).takeWhile Char.isDigit =
        n.whole ++ rest.takeWhile Char.isDigit := List.takeWhile_append_of_pos h.whole
    have hfound : (n.whole ++ rest.takeWhile Char.isDigit).isEmpty = false := by simp [hne]
    simp only [fractionChars, List.nil_append, htake, hfound, Bool.false_and]
    refine ⟨_, rfl, ?_⟩
    rw [length_chars, length_chars, hfraction]
    simp only [fractionChars, List.length_append, List.length_nil]
    omega
  | some digits =>
    obtain ⟨hne, hdigits⟩ := h.fraction digits hfraction
    have hpoint : ∀ c ∈ ('.' :: (digits ++ rest)).head?, c.isDigit = false := by
      intro c hc
      cases hc
      rfl
    simp only [fractionChars, List.cons_append, takeWhile_digits h.whole hpoint,
      dropWhile_digits h.whole hpoint, readFraction_digits hne hdigits, Option.isNone_some,
      Bool.and_false]
    refine ⟨_, rfl, ?_⟩
    rw [length_chars, length_chars, hfraction]
    simp only [fractionChars, List.length_cons, List.length_append]
    omega

theorem LongestIn.unique (h : LongestIn text n) (h' : LongestIn text m) : n = m := by
  have hlength := Nat.le_antisymm (h'.longest n h.valid h.starts) (h.longest m h'.valid h'.starts)
  have hprefix := List.prefix_of_prefix_length_le h.starts h'.starts hlength.le
  exact h.valid.eq_of_chars h'.valid (List.IsPrefix.eq_of_length hprefix hlength)

theorem longestIn_of_read (h : read text = some n) : LongestIn text n := by
  obtain ⟨hvalid, rest, htext, -⟩ := valid_of_read h
  refine ⟨hvalid, ⟨rest, htext.symm⟩, ?_⟩
  rintro m hm ⟨rest', rfl⟩
  obtain ⟨n', hn', hlength⟩ := hm.exists_read rest'
  rw [h] at hn'
  cases hn'
  exact hlength

/-- What is read is the longest number that the text begins with. -/
theorem read_eq_some_iff : read text = some n ↔ LongestIn text n := by
  refine ⟨longestIn_of_read, fun h => ?_⟩
  obtain ⟨rest, rfl⟩ := h.starts
  obtain ⟨m, hm, -⟩ := h.valid.exists_read rest
  rw [hm, h.unique (longestIn_of_read hm)]

example : (read "1..5".toList).map chars = some ['1'] := by decide

/-! ## What it means -/

/-- The digits in front of a point, each by its place. -/
def wholeValue : List Char → ℚ
  | [] => 0
  | c :: digits => (c.toNat - '0'.toNat : ℕ) * 10 ^ digits.length + wholeValue digits

/-- The digits behind a point, each by its place. -/
def fractionValue : List Char → ℚ
  | [] => 0
  | c :: digits => ((c.toNat - '0'.toNat : ℕ) + fractionValue digits) / 10

/-- The number without its sign. -/
def magnitude (n : Numeral) : ℚ := wholeValue n.whole + fractionValue (n.fraction.getD [])

/-- The rational number that is written. -/
def exact (n : Numeral) : ℚ := if n.sign = some '-' then -n.magnitude else n.magnitude

/-- A number without a point is an integer of 64 bits. -/
def Bounded (n : Numeral) : Prop := n.fraction = none → -2 ^ 63 ≤ n.exact ∧ n.exact < 2 ^ 63

/-- The number is read for what is written: an integer as itself, and anything as the nearest
float, a negative zero among them. -/
structure MeantBy (n : Numeral) (m : Number) : Prop where
  integer : n.fraction = none → ∃ i : Int64, m.integer = some i ∧ (i.toInt : ℚ) = n.exact
  pointed : n.fraction.isSome → m.integer = none
  value : m.value =
    if n.sign = some '-' then -Number.ofRat n.magnitude else Number.ofRat n.magnitude

theorem ofDigitChars_cons_zero (c : Char) (digits : List Char) :
    Nat.ofDigitChars 10 (c :: digits) 0 =
      10 ^ digits.length * (c.toNat - '0'.toNat) + Nat.ofDigitChars 10 digits 0 := by
  rw [Nat.ofDigitChars_cons, Nat.mul_zero, Nat.zero_add]
  exact Nat.ofDigitChars_eq_ofDigitChars_zero

theorem wholeValue_eq (digits : List Char) : wholeValue digits = Nat.ofDigitChars 10 digits 0 := by
  induction digits with
  | nil => rfl
  | cons c digits ih =>
    rw [wholeValue, ih, ofDigitChars_cons_zero]
    push_cast
    ring

theorem fractionValue_eq (digits : List Char) :
    fractionValue digits = Nat.ofDigitChars 10 digits 0 / 10 ^ digits.length := by
  induction digits with
  | nil => simp [fractionValue]
  | cons c digits ih =>
    rw [fractionValue, ih, ofDigitChars_cons_zero, List.length_cons, pow_succ]
    push_cast
    field_simp

theorem magnitude_eq (n : Numeral) :
    n.magnitude = (Number.Decimal.ofDigits n.whole (n.fraction.getD [])).value := by
  rw [Number.Decimal.value_ofDigits, Nat.ofDigitChars_append,
    Nat.ofDigitChars_eq_ofDigitChars_zero, magnitude, wholeValue_eq, fractionValue_eq]
  push_cast
  field_simp

theorem toFloat_eq (n : Numeral) : n.toFloat =
    if n.sign = some '-' then -Number.ofRat n.magnitude else Number.ofRat n.magnitude := by
  rw [magnitude_eq, ← Number.Decimal.toFloat_eq]
  rfl

theorem exact_of_integer (h : n.fraction = none) : n.exact = n.toInt := by
  have hmagnitude : n.magnitude = Nat.ofDigitChars 10 n.whole 0 := by
    rw [magnitude, h, wholeValue_eq]
    exact add_zero _
  unfold exact toInt
  rw [hmagnitude]
  split
  · push_cast
    rfl
  · rfl

theorem fits_iff : n.Fits ↔ n.Bounded := by
  refine forall_congr' fun hinteger => ?_
  have hlow : Int64.minValue.toInt = -2 ^ 63 := rfl
  have hhigh : Int64.maxValue.toInt = 2 ^ 63 - 1 := rfl
  rw [exact_of_integer hinteger, hlow, hhigh, Int.le_sub_one_iff]
  exact_mod_cast Iff.rfl

theorem Valid.utf8Size (h : n.Valid) : ∀ c ∈ n.chars, c.utf8Size = 1 := by
  intro c hc
  have hstart := h.startsNumber c hc
  simp only [ArgValue.startsNumber, Bool.or_eq_true, beq_iff_eq] at hstart
  rcases hstart with ((hdigit | rfl) | rfl) | rfl
  · exact Text.utf8Size_of_isDigit hdigit
  · rfl
  · rfl
  · rfl

end Numeral

namespace Scan

variable {n : Numeral} {m : Number} {t t' : Scanner}

theorem meantBy_of_numberOf (h : numberOf n = some m) : n.MeantBy m := by
  obtain ⟨hvalue, hinteger⟩ := numberOf_some h
  refine ⟨fun hnone => ?_, fun hsome => ?_, hvalue.trans n.toFloat_eq⟩
  · have hfits : n.Fits := exists_numberOf_iff.1 ⟨m, h⟩
    obtain ⟨hlow, hhigh⟩ := hfits hnone
    rw [numberOf_of_fits hnone hfits] at h
    cases h
    refine ⟨_, rfl, ?_⟩
    rw [Numeral.exact_of_integer hnone,
      Int64.toInt_ofInt_of_le hlow (Int.lt_add_one_of_le hhigh)]
  · rw [← Option.not_isSome_iff_eq_none, hinteger, Option.isNone_iff_eq_none]
    exact Option.isSome_iff_ne_none.1 hsome

theorem meantBy_unique {m' : Number} (h : n.MeantBy m) (h' : n.MeantBy m') : m = m' := by
  have hvalue : m.value = m'.value := h.value.trans h'.value.symm
  have hinteger : m.integer = m'.integer := by
    cases hfraction : n.fraction with
    | none =>
      obtain ⟨i, hi, hexact⟩ := h.integer hfraction
      obtain ⟨i', hi', hexact'⟩ := h'.integer hfraction
      have htoInt : i.toInt = i'.toInt := by exact_mod_cast hexact.trans hexact'.symm
      rw [hi, hi', Int64.toInt_inj.1 htoInt]
    | some digits =>
      have hsome : n.fraction.isSome := by rw [hfraction]; rfl
      rw [h.pointed hsome, h'.pointed hsome]
  obtain ⟨value, integer⟩ := m
  cases hvalue
  cases hinteger
  rfl

theorem numberOf_eq_some_iff : numberOf n = some m ↔ n.Bounded ∧ n.MeantBy m := by
  constructor
  · intro h
    exact ⟨Numeral.fits_iff.1 (exists_numberOf_iff.1 ⟨m, h⟩), meantBy_of_numberOf h⟩
  · rintro ⟨hbounded, hmeant⟩
    obtain ⟨m', hm'⟩ := exists_numberOf_iff.2 (Numeral.fits_iff.2 hbounded)
    rw [hm', meantBy_unique hmeant (meantBy_of_numberOf hm')]

theorem number_ok_iff : number t = .ok m t' ↔
    ∃ n, Numeral.LongestIn t.rest n ∧ n.Bounded ∧ n.MeantBy m ∧
      t' = t.advance n.chars.length := by
  simp only [number_eq_ok_iff, Numeral.read_eq_some_iff, numberOf_eq_some_iff, and_assoc]

/-- A number takes as many bytes as characters. -/
theorem bytes_advance_number (h : Numeral.LongestIn t.rest n) :
    (t.advance n.chars.length).bytes = t.bytes.moved n.chars.length := by
  have hbytes : Text.byteLength n.chars = n.chars.length :=
    Text.byteLength_of_utf8Size h.valid.utf8Size
  rw [Scanner.bytes_advance, ← List.prefix_iff_eq_take.1 h.starts, hbytes]

theorem number_bytes_ok_iff {s' : ByteScanner} : ByteScan.number t.bytes = .ok m s' ↔
    ∃ n, Numeral.LongestIn t.rest n ∧ n.Bounded ∧ n.MeantBy m ∧
      s' = t.bytes.moved n.chars.length := by
  rw [agrees_number t]
  constructor
  · intro h
    cases hnumber : number t with
    | error e t' =>
      rw [hnumber] at h
      cases h
    | ok m' t' =>
      rw [hnumber] at h
      cases h
      obtain ⟨n, hlongest, hbounded, hmeant, rfl⟩ := number_ok_iff.1 hnumber
      exact ⟨n, hlongest, hbounded, hmeant, bytes_advance_number hlongest⟩
  · rintro ⟨n, hlongest, hbounded, hmeant, rfl⟩
    rw [number_ok_iff.2 ⟨n, hlongest, hbounded, hmeant, rfl⟩, ← bytes_advance_number hlongest]
    rfl

/-- Wherever a scanner is, it reads the longest number that the text there begins with, if
there is one and it has a point or is an integer of 64 bits: as what is written, with the cursor
left behind it. In bytes, it reads sign, digits and point one after the other, and comes to the
same. -/
theorem number_reads_longest (t : Scanner) :
    ((∃ m t', number t = .ok m t') ↔ ∃ n, Numeral.LongestIn t.rest n ∧ n.Bounded) ∧
    (∀ m t', number t = .ok m t' ↔ ∃ n, Numeral.LongestIn t.rest n ∧ n.Bounded ∧ n.MeantBy m ∧
      t' = t.advance n.chars.length) ∧
    ∀ m s', ByteScan.number t.bytes = .ok m s' ↔
      ∃ n, Numeral.LongestIn t.rest n ∧ n.Bounded ∧ n.MeantBy m ∧
        s' = t.bytes.moved n.chars.length := by
  refine ⟨⟨?_, ?_⟩, fun m t' => number_ok_iff, fun m s' => number_bytes_ok_iff⟩
  · rintro ⟨m, t', h⟩
    obtain ⟨n, hlongest, hbounded, -⟩ := number_ok_iff.1 h
    exact ⟨n, hlongest, hbounded⟩
  · rintro ⟨n, hlongest, hbounded⟩
    obtain ⟨m, hm⟩ := exists_numberOf_iff.2 (Numeral.fits_iff.2 hbounded)
    exact ⟨m, _, number_ok_iff.2 ⟨n, hlongest, hbounded, meantBy_of_numberOf hm, rfl⟩⟩

end Scan

end CommandChain
