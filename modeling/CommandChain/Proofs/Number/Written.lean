import CommandChain.Proofs.Number.Decimal
import CommandChain.Proofs.Number.Shortest
import CommandChain.Proofs.Scanner.Numeral

/-!
# Written floats

A float that is no infinity or NaN is written as a number (`Numeral`) which is read
as that float. In `plain` notation it has a point exactly if the float is not whole,
and without a point it is an integer of 64 bits exactly below `2 ^ 63`
(`PlainNumber`); with a decimal place a whole float keeps its point (`exists_fixed`).
-/

namespace CommandChain.Number

open Scan

namespace Decimal

variable {whole fraction : List Char}

/-! ## Digits -/

theorem value_ofDigits (whole fraction : List Char) : (ofDigits whole fraction).value =
    Nat.ofDigitChars 10 (whole ++ fraction) 0 / 10 ^ fraction.length := by
  rw [value, ofDigits, zpow_neg, zpow_natCast, div_eq_mul_inv]

theorem value_ofDigits_nil (whole : List Char) :
    (ofDigits whole []).value = Nat.ofDigitChars 10 whole 0 := by
  rw [value_ofDigits, List.append_nil, List.length_nil, pow_zero, div_one]

theorem value_ofDigits_concat (whole fraction : List Char) (c : Char) :
    (ofDigits whole (fraction ++ [c])).value =
      (ofDigits whole fraction).value + (c.toNat - '0'.toNat : ℕ) / 10 ^ (fraction.length + 1) := by
  rw [value_ofDigits, value_ofDigits, ← List.append_assoc, Nat.ofDigitChars_append,
    List.length_append, List.length_singleton, Nat.ofDigitChars_cons, Nat.ofDigitChars_nil]
  push_cast
  field_simp
  ring

/-- Zeros at the end of the fraction do not count. -/
theorem value_rdropWhile (whole fraction : List Char) :
    (ofDigits whole (fraction.rdropWhile (· == '0'))).value = (ofDigits whole fraction).value := by
  induction fraction using List.reverseRecOn with
  | nil => rfl
  | append_singleton fraction c ih =>
    by_cases hc : c = '0'
    · subst hc
      rw [List.rdropWhile_concat_pos _ _ _ (by rfl), ih, value_ofDigits_concat]
      simp
    · rw [List.rdropWhile_concat_neg _ _ _ (by simpa using hc)]

/-- A number whose fraction does not end with a zero is not whole. -/
theorem value_ne_natCast (h : ∀ c ∈ fraction, c.isDigit) (hne : fraction ≠ [])
    (hlast : fraction.getLast hne ≠ '0') (n : ℕ) : (ofDigits whole fraction).value ≠ n := by
  obtain ⟨fraction, c, rfl⟩ := (List.eq_nil_or_concat' fraction).resolve_left hne
  rw [List.getLast_concat] at hlast
  have hdigit : 0 < c.toNat - '0'.toNat ∧ c.toNat - '0'.toNat < 10 := by
    have hc := h c (by simp)
    have hne : c.toNat ≠ '0'.toNat := fun h0 => hlast (Char.toNat_inj.1 h0)
    simp only [Char.isDigit, Bool.and_eq_true, decide_eq_true_eq, ge_iff_le,
      UInt32.le_iff_toNat_le] at hc
    change 48 ≤ c.toNat ∧ c.toNat ≤ 57 at hc
    change c.toNat ≠ 48 at hne
    change 0 < c.toNat - 48 ∧ c.toNat - 48 < 10
    omega
  rw [value_ofDigits, ← List.append_assoc, Nat.ofDigitChars_append, List.length_append,
    List.length_singleton, Nat.ofDigitChars_cons, Nat.ofDigitChars_nil]
  intro heq
  rw [div_eq_iff (by positivity), pow_succ, ← mul_assoc] at heq
  have hnat : 10 * Nat.ofDigitChars 10 (whole ++ fraction) 0 + (c.toNat - '0'.toNat) =
      n * 10 ^ fraction.length * 10 := by exact_mod_cast heq
  omega

/-! ## The two parts of a decimal -/

/-- The digits with the zeros in front that the fraction needs. -/
theorem split_eq (d : Decimal) : ∃ padded : List Char,
    (-d.exponent).toNat < padded.length ∧ Nat.ofDigitChars 10 padded 0 = d.digits ∧
      d.split = (padded.take (padded.length - (-d.exponent).toNat) ++
          List.replicate d.exponent.toNat '0',
        padded.drop (padded.length - (-d.exponent).toNat)) := by
  refine ⟨List.replicate ((-d.exponent).toNat + 1 - (Nat.toDigits 10 d.digits).length) '0' ++
    Nat.toDigits 10 d.digits, ?_, ?_, rfl⟩
  · rw [List.length_append, List.length_replicate]
    omega
  · rw [Nat.ofDigitChars_append, Nat.ofDigitChars_replicate_zero, mul_zero,
      Nat.ofDigitChars_ten_toDigits]

theorem length_split (d : Decimal) : d.split.1 ≠ [] ∧ d.split.2.length = (-d.exponent).toNat := by
  obtain ⟨padded, hlength, -, heq⟩ := d.split_eq
  rw [heq]
  constructor
  · intro hnil
    have := congrArg List.length hnil
    simp at this
    omega
  · simp
    omega

theorem value_split (d : Decimal) : (ofDigits d.split.1 d.split.2).value = d.value := by
  obtain ⟨padded, hlength, hdigits, heq⟩ := d.split_eq
  rw [value_ofDigits, (length_split d).2, heq, value]
  dsimp only
  rcases le_or_gt 0 d.exponent with he | he
  · have hzero : (-d.exponent).toNat = 0 := by omega
    have hpow : (10 : ℚ) ^ d.exponent = 10 ^ d.exponent.toNat := by
      rw [← zpow_natCast, Int.toNat_of_nonneg he]
    rw [hzero, Nat.sub_zero, List.take_length, List.drop_length, List.append_nil,
      Nat.ofDigitChars_append, hdigits, Nat.ofDigitChars_replicate_zero, hpow, pow_zero, div_one,
      mul_comm]
    push_cast
    rfl
  · have hpow : (10 : ℚ) ^ d.exponent = (10 ^ (-d.exponent).toNat)⁻¹ := by
      rw [← zpow_natCast, Int.toNat_of_nonneg (by omega), zpow_neg, inv_inv]
    rw [Int.toNat_of_nonpos he.le, List.replicate_zero, List.append_nil, List.take_append_drop,
      hdigits, hpow, div_eq_mul_inv]

/-! ## Numerals -/

/-- The numeral has no sign and the value `q`. -/
structure Denotes (n : Numeral) (q : ℚ) : Prop where
  valid : n.Valid
  sign : n.sign = none
  value : (ofDigits n.whole (n.fraction.getD [])).value = q

theorem denotes_digits (d : Decimal) {fraction : Option (List Char)}
    (hdigits : ∀ digits, fraction = some digits → digits ≠ [] ∧ ∀ c ∈ digits, c.isDigit)
    (hvalue : (ofDigits d.split.1 (fraction.getD [])).value = d.value) :
    Denotes ⟨none, d.split.1, fraction⟩ d.value where
  valid := ⟨.inl rfl, fun c hc => d.split_digits c (List.mem_append_left _ hc), hdigits,
    .inl (length_split d).1⟩
  sign := rfl
  value := hvalue

/-- Positional notation has a point if the decimal is not a natural number. -/
theorem exists_positional (d : Decimal) : ∃ n : Numeral, Denotes n d.value ∧
    d.positional = n.chars ∧ (n.fraction = none ↔ ∃ k : ℕ, d.value = k) := by
  have hvalue := value_split d
  rw [← value_rdropWhile] at hvalue
  have htrim : (d.split.2.reverse.dropWhile (· == '0')).reverse =
      d.split.2.rdropWhile (· == '0') := rfl
  unfold positional
  dsimp only
  rw [htrim]
  have hdigits : ∀ c ∈ d.split.2.rdropWhile (· == '0'), c.isDigit := fun c hc =>
    d.split_digits c (List.mem_append_right _ ((List.rdropWhile_prefix _ _).subset hc))
  have hlast := List.rdropWhile_last_not (· == '0') d.split.2
  generalize d.split.2.rdropWhile (· == '0') = fraction at hvalue hdigits hlast
  cases fraction with
  | nil =>
    refine ⟨⟨none, d.split.1, none⟩, denotes_digits d nofun hvalue, ?_, ?_⟩
    · simp [Numeral.chars]
    · exact iff_of_true rfl ⟨_, hvalue.symm.trans (value_ofDigits_nil _)⟩
  | cons c fraction =>
    refine ⟨⟨none, d.split.1, some (c :: fraction)⟩, denotes_digits d ?_ hvalue, ?_, ?_⟩
    · rintro digits hd
      cases hd
      exact ⟨List.cons_ne_nil _ _, hdigits⟩
    · simp [Numeral.chars]
    · refine iff_of_false (by simp) ?_
      rintro ⟨k, hk⟩
      have hne := hlast (List.cons_ne_nil _ _)
      exact value_ne_natCast hdigits (List.cons_ne_nil _ _) (by simpa using hne) k
        (hvalue.trans hk)

/-- The digits with a point between them. -/
theorem exists_pointed (d : Decimal) (h : d.exponent < 0) : ∃ n : Numeral, Denotes n d.value ∧
    d.split.1 ++ '.' :: d.split.2 = n.chars ∧ n.fraction.isSome := by
  refine ⟨⟨none, d.split.1, some d.split.2⟩, denotes_digits d ?_ (value_split d), ?_, rfl⟩
  · rintro digits hd
    cases hd
    refine ⟨fun hnil => ?_, fun c hc => d.split_digits c (List.mem_append_right _ hc)⟩
    have hlength := (length_split d).2
    rw [hnil, List.length_nil] at hlength
    omega
  · simp [Numeral.chars]

end Decimal

/-! ## Signs -/

section

variable {x : Float} {m : ℕ} {e : ℤ} {q : ℚ} {n : Numeral}

/-- The numeral with the sign of a float. -/
def withSign (x : Float) (n : Numeral) : Numeral :=
  { n with sign := if isNegative x then some '-' else none }

theorem signed_eq {write : ℕ → ℤ → List Char} (h : magnitude? x = some (m, e))
    (hn : n.sign = none) (hwrite : write m e = n.chars) :
    signed write x = (withSign x n).chars := by
  unfold signed
  rw [isNaN_of_magnitude h, if_neg Bool.false_ne_true, h]
  dsimp only
  rw [hwrite]
  unfold withSign Numeral.chars
  rw [hn]
  split <;> simp

theorem valid_withSign (x : Float) (hn : n.Valid) : (withSign x n).Valid :=
  ⟨by unfold withSign; split <;> simp, hn.whole, hn.fraction, hn.digits⟩

/-- A numeral of the magnitude's value is read as the float. -/
theorem toFloat_withSign (h : magnitude? x = some (m, e)) (hn : Decimal.Denotes n q)
    (hq : ofRat q = x.abs) : (withSign x n).toFloat = x := by
  unfold Numeral.toFloat
  have habs : (Decimal.ofDigits (withSign x n).whole ((withSign x n).fraction.getD [])).toFloat =
      x.abs := by
    rw [Decimal.toFloat_eq, ← hq, ← hn.value]
    rfl
  dsimp only
  rw [habs]
  conv_rhs => rw [← signed_abs h]
  unfold withSign
  cases isNegative x <;> rfl

/-- An integer of 64 bits is read from a text without a point if the magnitude fits. -/
theorem numberOf_withSign (h : magnitude? x = some (m, e)) (hn : Decimal.Denotes n q)
    (hq : ofRat q = x.abs) :
    (n.fraction.isSome → numberOf (withSign x n) = some ⟨x, none⟩) ∧
      (n.fraction = none → ∃ k : ℕ, q = k ∧
        (k < 2 ^ 63 → ∃ i, numberOf (withSign x n) = some ⟨x, some i⟩) ∧
        (2 ^ 63 < k → numberOf (withSign x n) = none)) := by
  have hfloat := toFloat_withSign h hn hq
  have hfraction : (withSign x n).fraction = n.fraction := rfl
  unfold numberOf
  rw [hfloat, hfraction]
  refine ⟨fun hsome => if_pos hsome, fun hnone => ?_⟩
  have hvalue := hn.value
  rw [hnone, Option.getD_none, Decimal.value_ofDigits_nil] at hvalue
  refine ⟨_, hvalue.symm, ?_⟩
  have hint : (withSign x n).toInt = Nat.ofDigitChars 10 n.whole 0 ∨
      (withSign x n).toInt = -Nat.ofDigitChars 10 n.whole 0 := by
    unfold Numeral.toInt
    dsimp only
    split
    · exact .inr rfl
    · exact .inl rfl
  have hmax : Int64.maxValue.toInt = 2 ^ 63 - 1 := by decide
  have hmin : Int64.minValue.toInt = -2 ^ 63 := by decide
  rw [hnone, hmax, hmin]
  simp only [Option.isSome_none, Bool.false_eq_true, if_false]
  constructor
  · intro hlt
    rw [if_neg (by omega), if_neg (by omega)]
    exact ⟨_, rfl⟩
  · intro hlt
    split_ifs <;> first | rfl | omega

end

/-! ## Both notations -/

section

variable {x : Float} {m : ℕ} {e : ℤ}

/-- What is read from a float in plain notation. -/
structure PlainNumber (x : Float) (n : Numeral) : Prop where
  valid : n.Valid
  chars : plain x = n.chars
  fractional : isWhole x = false → numberOf n = some ⟨x, none⟩
  small : isWhole x → x.abs < 9223372036854775808 → ∃ i, numberOf n = some ⟨x, some i⟩
  great : isWhole x → ¬ x.abs < 9223372036854775808 → numberOf n = none

theorem plainNumber_of {q : ℚ} {n : Numeral} (h : magnitude? x = some (m, e))
    (hn : Decimal.Denotes n q) (hq : ofRat q = x.abs)
    (hchars : (if m = 0 then ['0'] else (Decimal.shortest x.abs m e).positional) = n.chars)
    (hwhole : n.fraction = none ↔ isWhole x)
    (hbound : ∀ k : ℕ, q = k → (k < 2 ^ 63 ↔ x.abs < 9223372036854775808) ∧ k ≠ 2 ^ 63) :
    PlainNumber x (withSign x n) := by
  obtain ⟨hsome, hnone⟩ := numberOf_withSign h hn hq
  refine ⟨valid_withSign x hn.valid, signed_eq h hn.sign hchars, fun hx => hsome ?_,
    fun hx hlt => ?_, fun hx hge => ?_⟩
  · rw [Option.isSome_iff_ne_none, ne_eq, hwhole, hx]
    exact Bool.false_ne_true
  · obtain ⟨k, hk, hsmall, -⟩ := hnone (hwhole.2 hx)
    exact hsmall ((hbound k hk).1.2 hlt)
  · obtain ⟨k, hk, -, hgreat⟩ := hnone (hwhole.2 hx)
    obtain ⟨hiff, hne⟩ := hbound k hk
    have := mt hiff.1 hge
    exact hgreat (by omega)

theorem exists_plain (h : magnitude? x = some (m, e)) : ∃ n, PlainNumber x n := by
  rcases Nat.eq_zero_or_pos m with rfl | hm
  · have hzero : Decimal.Denotes ⟨none, ['0'], none⟩ 0 :=
      ⟨⟨.inl rfl, by simp, nofun, .inl (by simp)⟩, rfl, by
        rw [Option.getD_none, Decimal.value_ofDigits_nil]
        rfl⟩
    have hwhole : isWhole x := (isWhole_iff h).2 ⟨0, by simp⟩
    have hq : ofRat 0 = x.abs := by
      rw [abs_eq h, Decimal.ofRat_zero]
      rfl
    refine ⟨_, plainNumber_of h hzero hq rfl (by simp [hwhole]) fun k hk => ?_⟩
    have hk0 : k = 0 := by exact_mod_cast hk.symm
    rw [hk0, abs_lt_two_pow h]
    simp
  · obtain ⟨n, hn, hchars, hfraction⟩ := Decimal.exists_positional (Decimal.shortest x.abs m e)
    have hq : ofRat (Decimal.shortest x.abs m e).value = x.abs := by
      rw [← Decimal.toFloat_eq, Decimal.shortest_toFloat h]
    exact ⟨_, plainNumber_of h hn hq (by rw [if_neg hm.ne', hchars])
      (hfraction.trans (Decimal.shortest_whole h hm).symm)
      fun k hk => Decimal.shortest_lt_iff h hm hk⟩

theorem PlainNumber.exists_number {n : Numeral} (h : PlainNumber x n)
    (hx : isWhole x → x.abs < 9223372036854775808) :
    ∃ integer : Option Int64, numberOf n = some ⟨x, integer⟩ ∧ integer.isSome = isWhole x := by
  cases hwhole : isWhole x with
  | false => exact ⟨none, h.fractional hwhole, rfl⟩
  | true =>
    obtain ⟨i, hi⟩ := h.small hwhole (hx hwhole)
    exact ⟨some i, hi, rfl⟩

/-- A number is read in plain notation as long as it is no integer that does not fit. -/
theorem PlainNumber.fits {n : Numeral} {number : Number} (h : PlainNumber x n)
    (hnumber : numberOf n = some number) (hwhole : isWhole x) :
    x.abs < 9223372036854775808 := by
  by_contra hge
  rw [h.great hwhole hge] at hnumber
  cases hnumber

/-- With a decimal place a whole float keeps its point. -/
theorem exists_fixed (h : magnitude? x = some (m, e)) (hx : isWhole x) :
    ∃ n : Numeral, n.Valid ∧ fixed 1 x = n.chars ∧ numberOf n = some ⟨x, none⟩ := by
  have hvalue := Decimal.atPlaces_value h hx 1
  obtain ⟨n, hn, hchars, hsome⟩ := Decimal.exists_pointed (Decimal.atPlaces m e 1)
    (show -((1 : ℕ) : ℤ) < 0 by decide)
  have hq : ofRat (Decimal.atPlaces m e 1).value = x.abs := by
    rw [← Decimal.toFloat_eq]
    exact Decimal.toFloat_of_value h hvalue
  refine ⟨withSign x n, valid_withSign x hn.valid, signed_eq h hn.sign ?_,
    (numberOf_withSign h hn hq).1 hsome⟩
  rw [← hchars]
  rfl

end

/-! ## Infinities and NaN -/

/-- Infinities and NaN are written with words, which are no numbers. -/
theorem read_plain {x : Float} (h : magnitude? x = none) : Numeral.read (plain x) = none := by
  unfold plain signed
  rw [h]
  cases x.isNaN
  · cases isNegative x <;> rfl
  · rfl

theorem plain_ne_nil (x : Float) : plain x ≠ [] := by
  cases h : magnitude? x with
  | none =>
    unfold plain signed
    rw [h]
    cases x.isNaN
    · cases isNegative x <;> exact List.cons_ne_nil _ _
    · exact List.cons_ne_nil _ _
  | some p =>
    obtain ⟨n, hn⟩ := exists_plain h
    obtain ⟨c, w, hcw, -⟩ := hn.valid.head
    rw [hn.chars, hcw]
    exact List.cons_ne_nil _ _

/-- What is written as a number is one. -/
theorem isFinite_of_plain {x : Float} {n : Numeral} (hn : n.Valid) (h : plain x = n.chars) :
    x.isFinite := by
  rw [isFinite_eq, Option.isSome_iff_ne_none]
  intro hnone
  have hread := Numeral.read_chars hn
  rw [← h, read_plain hnone] at hread
  cases hread

end CommandChain.Number
