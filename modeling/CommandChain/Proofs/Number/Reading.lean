import CommandChain.Number.Decimal
import CommandChain.Proofs.Number.Packing

/-!
# Decimals as the nearest float

`Decimal.toFloat` gives the float nearest to the value of the decimal
(`toFloat_eq`), by multiplying or dividing two floats where both are exact and by
way of long division elsewhere. So decimals of one value are read as one float.
-/

namespace CommandChain.Number

open Float.Model UnpackedFloat

/-- The float nearest to `q`. -/
def ofRat (q : ℚ) : Float := .ofModel (.pack (nearest q))

/-! ## Exact numbers -/

/-- The number is the value of a float. -/
structure Exact (q : ℚ) : Prop where
  pos : 0 < q
  whole : ∃ n : ℕ, q / 2 ^ place q = n
  place_le : place q ≤ 971

variable {p q : ℚ}

theorem Exact.unpack (h : Exact q) : ∃ m e, ∃ hm : 0 < m, Canonical m e ∧ e = place q ∧
    (ofRat q).toModel.unpack = .finite .positive m e hm ∧ q = m * 2 ^ e := by
  obtain ⟨n, hn⟩ := h.whole
  obtain ⟨hnearest, hcanonical⟩ := nearest_exact h.pos hn
  refine ⟨n, place q, hcanonical.pos, hcanonical, rfl, ?_, ?_⟩
  · change (Float.Model.pack (nearest q)).unpack = _
    rw [hnearest, unpack_pack_unsigned hcanonical h.place_le, unsigned_eq hcanonical.pos]
  · rw [← hn, div_mul_cancel₀ _ (zpow_ne_zero _ two_ne_zero)]

theorem Exact.mul (hp : Exact p) (hq : Exact q) (hplace : -1074 < place p) :
    ofRat p * ofRat q = ofRat (p * q) := by
  obtain ⟨m, e, hm, hcanonical, rfl, hunpack, hvalue⟩ := hp.unpack
  obtain ⟨m', e', hm', -, -, hunpack', hvalue'⟩ := hq.unpack
  change Float.ofModel (.pack (UnpackedFloat.mul .binary64 (ofRat p).toModel.unpack
    (ofRat q).toModel.unpack)) = _
  have hnormal : 2 ^ 52 ≤ m := hcanonical.normal.resolve_right hplace.ne'
  rw [hunpack, hunpack', mul_finite hm hm' (hnormal.trans (Nat.le_mul_of_pos_right m hm')),
    ← hvalue, ← hvalue', ofRat]

theorem Exact.div (hp : Exact p) (hq : Exact q) : ofRat p / ofRat q = ofRat (p / q) := by
  obtain ⟨m, e, hm, -, -, hunpack, hvalue⟩ := hp.unpack
  obtain ⟨m', e', hm', -, -, hunpack', hvalue'⟩ := hq.unpack
  change Float.ofModel (.pack (UnpackedFloat.div .binary64 (ofRat p).toModel.unpack
    (ofRat q).toModel.unpack)) = _
  rw [hunpack, hunpack', div_finite hm hm', ← hvalue, ← hvalue', ofRat]

theorem place_natCast_mul {m : ℕ} (hm : 0 < m) (k : ℕ) :
    place (m * 2 ^ k) = m.log2 + k - 52 := by
  have := log_mul_zpow (q := m) (by exact_mod_cast hm) k
  rw [zpow_natCast] at this
  rw [place, this, log_natCast]
  omega

/-- Whole numbers of up to 53 bits are exact, also behind a power of two. -/
theorem exact_natCast_mul {m k : ℕ} (hm : 0 < m) (hlt : m < 2 ^ 53) (hk : k ≤ 971) :
    Exact (m * 2 ^ k) := by
  have hlog := (Nat.log2_lt hm.ne').2 hlt
  have hplace := place_natCast_mul hm k
  obtain ⟨j, hj⟩ := Int.eq_ofNat_of_zero_le (a := k - place (m * 2 ^ k : ℚ)) (by omega)
  refine ⟨by positivity, ⟨m * 2 ^ j, ?_⟩, by omega⟩
  push_cast
  rw [← zpow_natCast 2 j, ← hj, zpow_sub₀ two_ne_zero, zpow_natCast, mul_div_assoc]

/-! ## Floats of natural numbers -/

theorem ofNat_eq {n : ℕ} (hn : 0 < n) : UnpackedFloat.ofNat .binary64 n = nearest n := by
  have hcompare : compare (n : ℤ) 0 = .gt := Int.compare_eq_gt.2 (by exact_mod_cast hn)
  unfold UnpackedFloat.ofNat UnpackedFloat.ofInt UnpackedFloat.normalize
  rw [hcompare]
  simp only [Int.toNat_natCast]
  rw [round_eq hn, zpow_zero, mul_one]

theorem toFloat_toUInt64 {m : ℕ} (hm : 0 < m) (hlt : m < 2 ^ 53) :
    m.toUInt64.toFloat = ofRat m := by
  have hnat : m.toUInt64.toNat = m := by
    rw [Nat.toUInt64_eq, UInt64.toNat_ofNat', Nat.mod_eq_of_lt (by omega)]
  change Float.ofModel (.pack (UnpackedFloat.ofNat .binary64 m.toUInt64.toNat)) = _
  rw [hnat, ofNat_eq hm, ofRat]

/-- The table of powers of ten holds the powers of ten. -/
theorem powersOfTen_eq : ∀ e : Fin 23, Float.exactlyRepresentablePowersOfTen[e] =
    .ofModel (.pack (UnpackedFloat.ofNat .binary64 (10 ^ e.1))) := by
  decide +kernel

theorem powerOfTen_eq {e : ℕ} (he : e ≤ 22) (h : e < Float.exactlyRepresentablePowersOfTen.size) :
    Float.exactlyRepresentablePowersOfTen[e] = ofRat (10 ^ e) ∧ Exact (10 ^ e : ℚ) := by
  have hvalue : (10 ^ e : ℚ) = (5 ^ e : ℕ) * 2 ^ e := by
    push_cast
    rw [← mul_pow]
    norm_num
  have hlt : 5 ^ e < 2 ^ 53 := (Nat.pow_le_pow_right (by decide) he).trans_lt (by decide)
  constructor
  · have htable := powersOfTen_eq ⟨e, by omega⟩
    rw [ofNat_eq (by positivity)] at htable
    rw [ofRat]
    exact_mod_cast htable
  · rw [hvalue]
    exact exact_natCast_mul (by positivity) hlt (by omega)

/-! ## Very great and very small numbers -/

theorem pack_overflow {m : ℕ} {e : ℤ} (hm : 0 < m) (he : 971 < e) :
    Float.Model.pack (unsigned m e) = .pack (.infinity .positive) := by
  rw [← pack_unpack (.pack (unsigned m e)), unsigned_eq hm, unpack_pack_overflow hm he]

/-- A number of `2 ^ 1024` or more is read as infinity. -/
theorem ofRat_great (h : 2 ^ 1024 ≤ q) : ofRat q = .ofModel (.pack (.infinity .positive)) := by
  have hq : 0 < q := lt_of_lt_of_le (by positivity) h
  have hlog : 1024 ≤ Int.log 2 q := (zpow_le_iff hq).1 (by exact_mod_cast h)
  have hplace : 972 ≤ place q := by
    unfold place
    omega
  have hmantissa := le_mantissa hq (by omega)
  unfold ofRat nearest
  split
  · rw [pack_overflow (by decide) (by omega)]
  · rw [pack_overflow (by omega) (by omega)]

/-- A number below `2 ^ -1075` is read as zero. -/
theorem ofRat_small (hq : 0 < q) (h : q < 2 ^ (-1075 : ℤ)) :
    ofRat q = .ofModel (.pack (.zero .positive)) := by
  have hlog : ¬ -1075 ≤ Int.log 2 q := fun h' => ((zpow_le_iff hq).2 h').not_gt h
  have hplace : place q = -1074 := by
    unfold place
    omega
  have hlt : q / 2 ^ (-1074 : ℤ) < 1 / 2 := by
    rw [div_lt_iff₀ (zpow_pos two_pos _)]
    refine h.trans_eq ?_
    rw [show (-1075 : ℤ) = -1074 - 1 from rfl, zpow_sub₀ two_ne_zero, zpow_one]
    ring
  have hmantissa : mantissa q = 0 := by
    have hbits := bits_add (n := 0) (div_place_nonneg hq) (by rw [hplace]; linarith)
    rw [Nat.cast_zero, zero_add, hplace] at hbits
    rw [mantissa, hplace, hbits, decide_eq_false hlt.not_ge]
    unfold ExtendedMantissa.roundedMantissa ExtendedMantissa.accuracy
    split <;> simp_all [Accuracy.roundToNearestEven]
  rw [ofRat, nearest, hmantissa, unsigned_zero]
  rfl

/-! ## Decimals -/

namespace Decimal

/-- The number the decimal stands for. -/
def value (d : Decimal) : ℚ := d.digits * 10 ^ d.exponent

theorem ofRat_zero : ofRat 0 = 0 := by
  have hmantissa : mantissa 0 = 0 := by
    have := roundedMantissa_bits_natCast 0
    rwa [Nat.cast_zero, ← zero_div (2 ^ place 0)] at this
  rw [ofRat, nearest, hmantissa]
  rfl

theorem two_pow_le {m : ℕ} {e : ℤ} (hm : 0 < m) (he : 1024 ≤ e) :
    (2 : ℚ) ^ 1024 ≤ m * 10 ^ e := by
  have hm' : (1 : ℚ) ≤ m := by exact_mod_cast hm
  calc (2 : ℚ) ^ 1024 ≤ 10 ^ 1024 := pow_le_pow_left₀ zero_le_two (by norm_num) _
    _ ≤ 10 ^ e := by exact_mod_cast zpow_le_zpow_right₀ (by norm_num : (1 : ℚ) ≤ 10) he
    _ ≤ m * 10 ^ e := le_mul_of_one_le_left (zpow_nonneg (by norm_num) e) hm'

theorem lt_two_pow {m : ℕ} {e : ℤ} (he : m.log2 + 1 + e < -1075) :
    (m : ℚ) * 10 ^ e < 2 ^ (-1075 : ℤ) := by
  obtain ⟨k, rfl⟩ : ∃ k : ℕ, e = -k := ⟨(-e).toNat, by omega⟩
  have hlt : (m : ℚ) < 2 ^ (m.log2 + 1) := by exact_mod_cast Nat.lt_log2_self
  calc (m : ℚ) * 10 ^ (-k : ℤ) ≤ m * 2 ^ (-k : ℤ) := by
        rw [zpow_neg, zpow_neg, zpow_natCast, zpow_natCast]
        gcongr
        norm_num
    _ < 2 ^ (m.log2 + 1) * 2 ^ (-k : ℤ) := mul_lt_mul_of_pos_right hlt (zpow_pos two_pos _)
    _ = 2 ^ (m.log2 + 1 + -k : ℤ) := by rw [zpow_add₀ two_ne_zero]; norm_cast
    _ ≤ 2 ^ (-1075 : ℤ) := zpow_le_zpow_right₀ one_le_two he.le

/-- The bounds beyond which a decimal is not computed are beyond those of the floats. -/
theorem ofScientific_eq (m : ℕ) (e : ℤ) :
    Float.ofModel (.ofScientific m e) = ofRat (m * 10 ^ e) := by
  rcases Nat.eq_zero_or_pos m with rfl | hm
  · rw [Nat.cast_zero, zero_mul, ofRat_zero]
    rfl
  have hm' : (0 : ℚ) < m := by exact_mod_cast hm
  have hq : (0 : ℚ) < m * 10 ^ e := mul_pos hm' (zpow_pos (by norm_num) e)
  have hbits : (2 : ℤ) ^ Format.binary64.exponentBits = 2048 := rfl
  unfold Float.Model.ofScientific UnpackedFloat.ofScientific
  rw [dif_neg hm.ne']
  split_ifs with hgreat hsmall hpos
  · exact (ofRat_great (two_pow_le hm (by omega))).symm
  · exact (ofRat_small hq (lt_two_pow (by omega))).symm
  · have hshift : 2 ^ 52 ≤ (m <<< Format.binary64.mantissaBits) * 10 ^ e.toNat := by
      rw [Nat.shiftLeft_eq]
      calc 2 ^ 52 ≤ 1 * 2 ^ 53 * 1 := by norm_num
        _ ≤ m * 2 ^ Format.binary64.mantissaBits * 10 ^ e.toNat :=
          Nat.mul_le_mul (Nat.mul_le_mul_right _ hm) (Nat.one_le_pow _ _ (by norm_num))
    have hpow : ((10 ^ e.toNat : ℕ) : ℚ) = 10 ^ e := by
      push_cast
      rw [← zpow_natCast, Int.toNat_of_nonneg hpos]
    rw [mul_finite _ _ hshift, ofRat, hpow, zpow_zero, mul_one, Nat.shiftLeft_eq, Nat.cast_mul,
      Nat.cast_pow, zpow_neg, zpow_natCast, Nat.cast_ofNat,
      mul_inv_cancel_right₀ (pow_ne_zero _ two_ne_zero)]
  · have hpow : ((10 ^ (-e).toNat : ℕ) : ℚ) = (10 ^ e)⁻¹ := by
      push_cast
      rw [← zpow_natCast, Int.toNat_of_nonneg (by omega), zpow_neg]
    rw [div_finite, ofRat, hpow, zpow_zero, mul_one, mul_one, div_inv_eq_mul]

/-- Zero times or divided by a power of ten. -/
theorem zero_powerOfTen : ∀ e : Fin 23,
    (0 : ℕ).toUInt64.toFloat / Float.exactlyRepresentablePowersOfTen[e] = 0 ∧
      (0 : ℕ).toUInt64.toFloat * Float.exactlyRepresentablePowersOfTen[e] = 0 := by
  decide +kernel

section

variable {m k : ℕ}

theorem exact_natCast (hm : 0 < m) (hlt : m < 2 ^ 53) : Exact m := by
  have := exact_natCast_mul (k := 0) hm hlt (by decide)
  rwa [pow_zero, mul_one] at this

theorem div_powerOfTen (hm : m < 2 ^ 53) (hk : k ≤ 22)
    (h : k < Float.exactlyRepresentablePowersOfTen.size) :
    m.toUInt64.toFloat / Float.exactlyRepresentablePowersOfTen[k] = ofRat (m / 10 ^ k) := by
  rcases Nat.eq_zero_or_pos m with rfl | hpos
  · rw [Nat.cast_zero, zero_div, ofRat_zero]
    exact (zero_powerOfTen ⟨k, by omega⟩).1
  · obtain ⟨hpower, hexact⟩ := powerOfTen_eq hk h
    rw [toFloat_toUInt64 hpos hm, hpower, (exact_natCast hpos hm).div hexact]

theorem mul_powerOfTen (hm : m < 2 ^ 53) (hk : k ≤ 22)
    (h : k < Float.exactlyRepresentablePowersOfTen.size) :
    m.toUInt64.toFloat * Float.exactlyRepresentablePowersOfTen[k] = ofRat (m * 10 ^ k) := by
  rcases Nat.eq_zero_or_pos m with rfl | hpos
  · rw [Nat.cast_zero, zero_mul, ofRat_zero]
    exact (zero_powerOfTen ⟨k, by omega⟩).2
  · obtain ⟨hpower, hexact⟩ := powerOfTen_eq hk h
    have hplace := place_natCast_mul hpos 0
    rw [pow_zero, mul_one] at hplace
    rw [toFloat_toUInt64 hpos hm, hpower, (exact_natCast hpos hm).mul hexact (by omega)]

theorem ofScientific_false (m k : ℕ) : Float.ofScientific m false k = ofRat (m * 10 ^ k) := by
  unfold Float.ofScientific
  split
  · next h => exact mul_powerOfTen h.1 h.2 _
  · exact_mod_cast ofScientific_eq m k

theorem ofScientific_true (m k : ℕ) : Float.ofScientific m true k = ofRat (m / 10 ^ k) := by
  unfold Float.ofScientific
  split
  · next h => exact div_powerOfTen h.1 h.2 _
  · have h := ofScientific_eq m (-k)
    rw [zpow_neg, zpow_natCast, ← div_eq_mul_inv] at h
    rw [if_pos rfl, Int.negOfNat_eq]
    exact h

end

/-- A decimal is read as the float nearest to it. -/
theorem toFloat_eq (d : Decimal) : d.toFloat = ofRat d.value := by
  obtain ⟨m, e⟩ := d
  unfold toFloat value
  dsimp only
  rcases le_or_gt 0 e with he | he
  · lift e to ℕ using he
    rw [decide_eq_false (by omega), Int.natAbs_natCast, ofScientific_false, zpow_natCast]
  · obtain ⟨k, rfl⟩ : ∃ k : ℕ, e = -k := ⟨(-e).toNat, by omega⟩
    rw [decide_eq_true he, Int.natAbs_neg, Int.natAbs_natCast, ofScientific_true, zpow_neg,
      zpow_natCast, div_eq_mul_inv]

end Decimal

end CommandChain.Number
