import Mathlib

/-!
# Rounding to the nearest float

`nearest q` is the float nearest to a positive rational `q`, ties to the even
mantissa: the value of the last bit of the mantissa is `2 ^ place q`, and `bits`
keeps what rounding to it needs of the bits behind. Quotients of naturals times a
power of two, and products and quotients of floats, are rounded so, as long as no
bit has been dropped before.
-/

namespace CommandChain.Number

open Float.Model UnpackedFloat

/-- The whole part of `q` with its first fractional bit and whether another one is set. -/
def bits (q : ℚ) : ExtendedMantissa :=
  ⟨⌊q⌋₊, 1 / 2 ≤ Int.fract q, Int.fract q ≠ 0 ∧ Int.fract q ≠ 1 / 2⟩

/-- Exponent of the last bit of the mantissa of a float near `q`. -/
def place (q : ℚ) : ℤ := max (Int.log 2 q - 52) (-1074)

/-- The mantissa of the multiple of `2 ^ place q` nearest to `q`. -/
def mantissa (q : ℚ) : ℕ := (bits (q / 2 ^ place q)).roundedMantissa

/-- The number `m · 2 ^ e`. -/
def unsigned (m : ℕ) (e : ℤ) : UnpackedFloat :=
  if h : m = 0 then .zero .positive else .finite .positive m e (Nat.pos_of_ne_zero h)

/-- The float nearest to `q`. A mantissa that is rounded up to `2 ^ 53` is halved. -/
def nearest (q : ℚ) : UnpackedFloat :=
  if mantissa q = 2 ^ 53 then unsigned (2 ^ 52) (place q + 1)
  else unsigned (mantissa q) (place q)

/-! ## Bits -/

theorem exists_eq_add {q : ℚ} (hq : 0 ≤ q) : ∃ n : ℕ, ∃ f : ℚ, q = n + f ∧ 0 ≤ f ∧ f < 1 :=
  ⟨⌊q⌋₊, q - ⌊q⌋₊, by ring, sub_nonneg.2 (Nat.floor_le hq),
    by linarith [Nat.lt_floor_add_one q]⟩

section

variable {n : ℕ} {f q : ℚ}

theorem floor_add (hf : 0 ≤ f) (hf' : f < 1) : ⌊(n : ℚ) + f⌋₊ = n :=
  (Nat.floor_eq_iff (by positivity)).2 ⟨by linarith, by linarith⟩

theorem bits_add (hf : 0 ≤ f) (hf' : f < 1) :
    bits (n + f) = ⟨n, 1 / 2 ≤ f, f ≠ 0 ∧ f ≠ 1 / 2⟩ := by
  have hfract : Int.fract ((n : ℚ) + f) = f := by
    rw [Int.fract_natCast_add, Int.fract_eq_self.2 ⟨hf, hf'⟩]
  unfold bits
  rw [hfract, floor_add hf hf']

theorem bits_natCast (n : ℕ) : bits n = .ofMantissaAndAccuracy n .exact := by
  have h := bits_add (n := n) (f := 0) le_rfl one_pos
  rw [add_zero] at h
  rw [h]
  norm_num [ExtendedMantissa.ofMantissaAndAccuracy]

@[simp] theorem roundedMantissa_bits_natCast (n : ℕ) : (bits n).roundedMantissa = n := by
  rw [bits_natCast]
  rfl

/-- Rounding gives one of the two naturals around. -/
theorem roundedMantissa_bits (hq : 0 ≤ q) :
    ⌊q⌋₊ ≤ (bits q).roundedMantissa ∧ (bits q).roundedMantissa ≤ ⌈q⌉₊ := by
  obtain ⟨n, f, rfl, hf, hf'⟩ := exists_eq_add hq
  rcases hf.eq_or_lt with rfl | hpos
  · simp
  · have hceil : n + 1 ≤ ⌈(n : ℚ) + f⌉₊ := Nat.add_one_le_ceil_iff.2 (by linarith)
    have hround (r s : Bool) : n ≤ (⟨n, r, s⟩ : ExtendedMantissa).roundedMantissa ∧
        (⟨n, r, s⟩ : ExtendedMantissa).roundedMantissa ≤ n + 1 := by
      cases r <;> cases s <;>
        simp only [ExtendedMantissa.roundedMantissa, ExtendedMantissa.accuracy,
          Accuracy.roundToNearestEven] <;> omega
    rw [floor_add hf hf', bits_add hf hf']
    exact ⟨(hround _ _).1, (hround _ _).2.trans hceil⟩

/-- Shifting by one bit halves the number. -/
theorem shiftRightOne_bits (hq : 0 ≤ q) : (bits q).shiftRightOne = bits (q / 2) := by
  obtain ⟨n, f, rfl, hf, hf'⟩ := exists_eq_add hq
  have hn : (n : ℚ) = 2 * (n / 2 : ℕ) + (n % 2 : ℕ) := by
    exact_mod_cast (Nat.div_add_mod n 2).symm
  have hsplit : ((n : ℚ) + f) / 2 = (n / 2 : ℕ) + ((n % 2 : ℕ) + f) / 2 := by
    linarith
  rw [hsplit, bits_add hf hf']
  rcases Nat.mod_two_eq_zero_or_one n with h | h
  · rw [h, bits_add (by push_cast; linarith) (by push_cast; linarith)]
    simp [ExtendedMantissa.shiftRightOne, h]
    grind
  · rw [h, bits_add (by push_cast; linarith) (by push_cast; linarith)]
    simp [ExtendedMantissa.shiftRightOne, h]
    grind

theorem shiftRight_bits (hq : 0 ≤ q) (k : ℕ) : bits q >>> k = bits (q / 2 ^ k) := by
  change k.repeat ExtendedMantissa.shiftRightOne (bits q) = _
  induction k with
  | zero => simp [Nat.repeat]
  | succ k ih => rw [Nat.repeat, ih, shiftRightOne_bits (by positivity), pow_succ, div_div]

end

/-- The bits of a quotient, as long division finds them. -/
theorem ofMantissaAndAccuracy_div (a : ℕ) {b : ℕ} (hb : 0 < b) :
    ExtendedMantissa.ofMantissaAndAccuracy (a / b) (accuracyOfFraction (a % b) b) =
      bits (a / b) := by
  have hb' : (0 : ℚ) < b := by exact_mod_cast hb
  have hr : ((a % b : ℕ) : ℚ) < b := by exact_mod_cast Nat.mod_lt a hb
  have hdiv : (a : ℚ) / b = (a / b : ℕ) + (a % b : ℕ) / b := by
    rw [div_eq_iff hb'.ne', add_mul, div_mul_cancel₀ _ hb'.ne']
    exact_mod_cast (Nat.div_add_mod' a b).symm
  rw [hdiv, bits_add (by positivity) ((div_lt_one hb').2 hr)]
  have hzero : ((a % b : ℕ) : ℚ) / b = 0 ↔ a % b = 0 := by
    rw [div_eq_zero_iff, or_iff_left hb'.ne', Nat.cast_eq_zero]
  have hhalf : (1 / 2 : ℚ) ≤ (a % b : ℕ) / b ↔ b ≤ 2 * (a % b) := by
    rw [le_div_iff₀ hb', ← @Nat.cast_le ℚ]
    push_cast
    constructor <;> intro h <;> linarith
  have htie : ((a % b : ℕ) : ℚ) / b = 1 / 2 ↔ 2 * (a % b) = b := by
    rw [div_eq_iff hb'.ne', ← @Nat.cast_inj ℚ]
    push_cast
    constructor <;> intro h <;> linarith
  simp only [ne_eq, hzero, hhalf, htie, accuracyOfFraction]
  by_cases h0 : a % b = 0
  · simp [h0, hb.ne', ExtendedMantissa.ofMantissaAndAccuracy]
  · rw [if_neg h0]
    rcases lt_trichotomy (2 * (a % b)) b with h | h | h
    · rw [Nat.compare_eq_lt.2 h]
      simp [ExtendedMantissa.ofMantissaAndAccuracy, h0, h.ne, h]
    · rw [Nat.compare_eq_eq.2 h]
      simp [ExtendedMantissa.ofMantissaAndAccuracy, h]
    · rw [Nat.compare_eq_gt.2 h]
      simp [ExtendedMantissa.ofMantissaAndAccuracy, h0, h.ne', h.le]

/-! ## Exponents -/

section

variable {q : ℚ}

theorem zpow_le_iff (hq : 0 < q) {k : ℤ} : 2 ^ k ≤ q ↔ k ≤ Int.log 2 q := by
  exact_mod_cast Int.zpow_le_iff_le_log (b := 2) one_lt_two hq

theorem log_eq (hq : 0 < q) {k : ℤ} (h : 2 ^ k ≤ q) (h' : q < 2 ^ (k + 1)) :
    Int.log 2 q = k := by
  have hle := (zpow_le_iff hq).1 h
  have hlt := mt (zpow_le_iff hq).2 h'.not_ge
  omega

theorem log_bounds (hq : 0 < q) : 2 ^ Int.log 2 q ≤ q ∧ q < 2 ^ (Int.log 2 q + 1) := by
  refine ⟨(zpow_le_iff hq).2 le_rfl, not_le.1 fun h => ?_⟩
  have := (zpow_le_iff hq).1 h
  omega

theorem log_mul_zpow (hq : 0 < q) (e : ℤ) : Int.log 2 (q * 2 ^ e) = Int.log 2 q + e := by
  have htwo : (0 : ℚ) < 2 ^ e := zpow_pos two_pos e
  obtain ⟨h, h'⟩ := log_bounds hq
  apply log_eq (mul_pos hq htwo)
  · rw [zpow_add₀ two_ne_zero]
    exact mul_le_mul_of_nonneg_right h htwo.le
  · rw [add_right_comm, zpow_add₀ two_ne_zero]
    exact mul_lt_mul_of_pos_right h' htwo

theorem le_log_div {p : ℚ} (hp : 0 < p) (hq : 0 < q) :
    Int.log 2 p - Int.log 2 q - 1 ≤ Int.log 2 (p / q) := by
  rw [← zpow_le_iff (div_pos hp hq), le_div_iff₀ hq]
  calc (2 : ℚ) ^ (Int.log 2 p - Int.log 2 q - 1) * q
      ≤ 2 ^ (Int.log 2 p - Int.log 2 q - 1) * 2 ^ (Int.log 2 q + 1) :=
        mul_le_mul_of_nonneg_left (log_bounds hq).2.le (zpow_nonneg zero_le_two _)
    _ = 2 ^ Int.log 2 p := by rw [← zpow_add₀ two_ne_zero]; congr 1; ring
    _ ≤ p := (log_bounds hp).1

theorem log_natCast (m : ℕ) : Int.log 2 (m : ℚ) = m.log2 := by
  rw [Int.log_natCast, Nat.log2_eq_log_two]

/-- No mantissa has more than 53 bits. -/
theorem lt_of_place (hq : 0 < q) : q / 2 ^ place q < 2 ^ 53 := by
  rw [div_lt_iff₀ (zpow_pos two_pos _), ← zpow_natCast, ← zpow_add₀ two_ne_zero]
  refine (log_bounds hq).2.trans_le (zpow_le_zpow_right₀ one_le_two ?_)
  unfold place
  push_cast
  omega

theorem div_place_nonneg (hq : 0 < q) : 0 ≤ q / 2 ^ place q :=
  div_nonneg hq.le (zpow_nonneg zero_le_two _)

theorem mantissa_le (hq : 0 < q) : mantissa q ≤ 2 ^ 53 :=
  (roundedMantissa_bits (div_place_nonneg hq)).2.trans
    (Nat.ceil_le.2 (by exact_mod_cast (lt_of_place hq).le))

end

theorem targetExponent_eq (t : ℤ) : Format.binary64.targetExponent t = max (t - 53) (-1074) := rfl

/-- The exponent that rounding aims at is the place of the last bit. -/
theorem targetExponent_totalExponent {m : ℕ} (hm : 0 < m) (e : ℤ) :
    Format.binary64.targetExponent (totalExponent m e) = place (m * 2 ^ e) := by
  rw [targetExponent_eq, place, log_mul_zpow (by exact_mod_cast hm), log_natCast, totalExponent]
  congr 1
  omega

section

variable {a b : ℕ} {e : ℤ}

/-- Long division aims at the same exponent, if it leaves enough bits. -/
theorem targetExponent_div (ha : 0 < a) (hb : 0 < b) (he : e ≤ place (a / b * 2 ^ e)) :
    Format.binary64.targetExponent (totalExponent (a / b) e) = place (a / b * 2 ^ e) := by
  have hq : (0 : ℚ) < a / b := by positivity
  rw [place, log_mul_zpow hq] at he ⊢
  rw [targetExponent_eq, totalExponent]
  rcases Nat.eq_zero_or_pos (a / b) with h | h
  · have hlt : (a : ℚ) / b < 1 := by
      rw [div_lt_one (by exact_mod_cast hb)]
      exact_mod_cast (Nat.div_eq_zero_iff_lt hb).1 h
    have hlog : ¬ 0 ≤ Int.log 2 ((a : ℚ) / b) := fun h0 =>
      ((zpow_le_iff hq).2 h0).not_gt (by rw [zpow_zero]; exact hlt)
    rw [h, Nat.log2_zero]
    omega
  · have hba : b ≤ a := by simpa using (Nat.le_div_iff_mul_le hb).1 h
    have hone : (1 : ℚ) ≤ a / b := by
      rw [one_le_div (by exact_mod_cast hb)]
      exact_mod_cast hba
    have hlog : Int.log 2 ((a : ℚ) / b) = (a / b).log2 := by
      rw [Int.log_of_one_le_right 2 hone, Nat.floor_div_natCast,
        Nat.floor_natCast, Nat.log2_eq_log_two]
    rw [hlog]
    congr 1
    omega

/-! ## Rounding -/

theorem shiftToExponent_div (hb : 0 < b) {p : ℤ} (hp : e ≤ p) :
    shiftToExponent (a / b) e (accuracyOfFraction (a % b) b) p =
      (bits (a / b * 2 ^ e / 2 ^ p), p) := by
  have hshift : ((p - e).toNat : ℤ) = p - e := Int.toNat_of_nonneg (by omega)
  have hpow : (2 : ℚ) ^ (p - e).toNat = 2 ^ p / 2 ^ e := by
    rw [← zpow_natCast, hshift, zpow_sub₀ two_ne_zero]
  simp only [shiftToExponent, ofMantissaAndAccuracy_div a hb, hshift, add_sub_cancel]
  rw [shiftRight_bits (by positivity), hpow, div_div_eq_mul_div]

/-- A mantissa that is rounded up to the next power of two is halved. -/
theorem shiftToTargetExponent_exact {m : ℕ} (hm : m ≤ 2 ^ 53) (he : -1074 ≤ e) :
    shiftToTargetExponent .binary64 m e .exact =
      if m = 2 ^ 53 then (.ofMantissaAndAccuracy (2 ^ 52) .exact, e + 1)
      else (.ofMantissaAndAccuracy m .exact, e) := by
  simp only [shiftToTargetExponent, shiftToExponent, targetExponent_eq, totalExponent]
  split
  · next h =>
    have hlog : m.log2 = 53 := by rw [h, Nat.log2_two_pow]
    have hshift : (max ((m.log2 : ℤ) + 1 + e - 53) (-1074) - e).toNat = 1 := by omega
    rw [hshift, h]
    rfl
  · next h =>
    have hlog : m.log2 < 53 := by
      rcases Nat.eq_zero_or_pos m with rfl | hpos
      · simp
      · exact (Nat.log2_lt hpos.ne').2 (by omega)
    have hshift : (max ((m.log2 : ℤ) + 1 + e - 53) (-1074) - e).toNat = 0 := by omega
    rw [hshift, Nat.cast_zero, add_zero]
    rfl

/-- A quotient of naturals times a power of two is rounded to the nearest float, if no
bit of it has been dropped before. -/
theorem roundWithAccuracy_div (ha : 0 < a) (hb : 0 < b) (he : e ≤ place (a / b * 2 ^ e)) :
    roundWithAccuracy .binary64 .positive (a / b) e (accuracyOfFraction (a % b) b) =
      nearest (a / b * 2 ^ e) := by
  have hq : (0 : ℚ) < a / b * 2 ^ e := mul_pos (by positivity) (zpow_pos two_pos e)
  have hfirst : shiftToTargetExponent .binary64 (a / b) e (accuracyOfFraction (a % b) b) =
      (bits (a / b * 2 ^ e / 2 ^ place (a / b * 2 ^ e)), place (a / b * 2 ^ e)) := by
    rw [shiftToTargetExponent, targetExponent_div ha hb he, shiftToExponent_div hb he]
  have hround : roundWithAccuracy .binary64 .positive (a / b) e (accuracyOfFraction (a % b) b) =
      let first := shiftToTargetExponent .binary64 (a / b) e (accuracyOfFraction (a % b) b)
      let second := shiftToTargetExponent .binary64 first.1.roundedMantissa first.2 .exact
      unsigned second.1.mantissa second.2 := rfl
  have hplace : -1074 ≤ place (a / b * 2 ^ e : ℚ) := le_max_right _ _
  rw [hround, hfirst, nearest]
  dsimp only
  rw [← mantissa, shiftToTargetExponent_exact (mantissa_le hq) hplace]
  split <;> rfl

end

section

variable {m m₁ m₂ : ℕ} {e e₁ e₂ : ℤ}

theorem roundWithAccuracy_exact (hm : 0 < m) (he : e ≤ place (m * 2 ^ e)) :
    roundWithAccuracy .binary64 .positive m e .exact = nearest (m * 2 ^ e) := by
  have hone : ((1 : ℕ) : ℚ) = 1 := Nat.cast_one
  have h := roundWithAccuracy_div (a := m) (b := 1) (e := e) hm one_pos
  rw [hone, div_one, Nat.div_one, Nat.mod_one] at h
  exact h he

theorem round_eq (hm : 0 < m) (e : ℤ) :
    UnpackedFloat.round .binary64 .positive m e = nearest (m * 2 ^ e) := by
  unfold UnpackedFloat.round
  rw [targetExponent_totalExponent hm]
  have hvalue (k : ℕ) : ((m <<< k : ℕ) : ℚ) * 2 ^ (e - k) = m * 2 ^ e := by
    rw [Nat.shiftLeft_eq, zpow_sub₀ two_ne_zero, zpow_natCast]
    push_cast
    field_simp
  simp only [decreaseExponent]
  rw [roundWithAccuracy_exact, hvalue]
  · exact Nat.pos_of_ne_zero (by simp [Nat.shiftLeft_eq, hm.ne'])
  · rw [hvalue]
    omega

/-- A product of floats is rounded to the nearest float. -/
theorem mul_finite (h₁ : 0 < m₁) (h₂ : 0 < m₂) (h : 2 ^ 52 ≤ m₁ * m₂) :
    UnpackedFloat.mul .binary64 (.finite .positive m₁ e₁ h₁) (.finite .positive m₂ e₂ h₂) =
      nearest (m₁ * 2 ^ e₁ * (m₂ * 2 ^ e₂)) := by
  have hpos : 0 < m₁ * m₂ := Nat.mul_pos h₁ h₂
  have hvalue : (m₁ * 2 ^ e₁ * (m₂ * 2 ^ e₂) : ℚ) = (m₁ * m₂ : ℕ) * 2 ^ (e₁ + e₂) := by
    rw [zpow_add₀ two_ne_zero]
    push_cast
    ring
  rw [hvalue]
  refine roundWithAccuracy_exact hpos ?_
  have hlog := (Nat.le_log2 hpos.ne').2 h
  rw [place, log_mul_zpow (by exact_mod_cast hpos), log_natCast]
  omega

/-- A quotient of floats is rounded to the nearest float. -/
theorem div_finite (h₁ : 0 < m₁) (h₂ : 0 < m₂) :
    UnpackedFloat.div .binary64 (.finite .positive m₁ e₁ h₁) (.finite .positive m₂ e₂ h₂) =
      nearest (m₁ * 2 ^ e₁ / (m₂ * 2 ^ e₂)) := by
  have hm₁ : (0 : ℚ) < m₁ := by exact_mod_cast h₁
  have hm₂ : (0 : ℚ) < m₂ := by exact_mod_cast h₂
  have htarget : Format.binary64.targetExponent (totalExponent m₁ e₁ - totalExponent m₂ e₂) ≤
      place (m₁ * 2 ^ e₁ / (m₂ * 2 ^ e₂)) := by
    have hlog := le_log_div (mul_pos hm₁ (zpow_pos two_pos e₁)) (mul_pos hm₂ (zpow_pos two_pos e₂))
    rw [log_mul_zpow hm₁, log_mul_zpow hm₂, log_natCast, log_natCast] at hlog
    rw [targetExponent_eq, totalExponent, totalExponent, place]
    omega
  simp only [UnpackedFloat.div, divCore]
  generalize Format.binary64.targetExponent _ = target at htarget ⊢
  have hvalue (k : ℕ) : (((m₁ <<< k : ℕ) : ℚ) / m₂ * 2 ^ (e₁ - e₂ - k) : ℚ) =
      m₁ * 2 ^ e₁ / (m₂ * 2 ^ e₂) := by
    rw [Nat.shiftLeft_eq, zpow_sub₀ two_ne_zero, zpow_sub₀ two_ne_zero, zpow_natCast]
    push_cast
    field_simp
  have hexp : min (e₁ - e₂) target = e₁ - e₂ - (e₁ - e₂ - min (e₁ - e₂) target).toNat := by omega
  generalize (e₁ - e₂ - min (e₁ - e₂) target).toNat = k at hexp ⊢
  rw [hexp, ← hvalue k]
  refine roundWithAccuracy_div (Nat.pos_of_ne_zero ?_) h₂ ?_
  · simp [Nat.shiftLeft_eq, h₁.ne']
  · rw [hvalue]
    omega

end

/-! ## Canonical mantissas -/

/-- Mantissa and exponent as a float keeps them. -/
structure Canonical (m : ℕ) (e : ℤ) : Prop where
  pos : 0 < m
  lt : m < 2 ^ 53
  exponent : -1074 ≤ e
  normal : 2 ^ 52 ≤ m ∨ e = -1074

theorem place_canonical {m : ℕ} {e : ℤ} (h : Canonical m e) : place (m * 2 ^ e) = e := by
  rw [place, log_mul_zpow (by exact_mod_cast h.pos), log_natCast]
  have hlt := (Nat.log2_lt h.pos.ne').2 h.lt
  have hexponent := h.exponent
  rcases h.normal with hm | he
  · have hle := (Nat.le_log2 h.pos.ne').2 hm
    omega
  · omega

/-- A canonical number is its own nearest float. -/
theorem nearest_canonical {m : ℕ} {e : ℤ} (h : Canonical m e) :
    nearest (m * 2 ^ e) = unsigned m e := by
  have hm : mantissa (m * 2 ^ e) = m := by
    rw [mantissa, place_canonical h, mul_div_cancel_right₀ _ (zpow_ne_zero e two_ne_zero),
      roundedMantissa_bits_natCast]
  rw [nearest, hm, if_neg h.lt.ne, place_canonical h]

/-- Above the smallest numbers the mantissa has all its bits. -/
theorem le_mantissa {q : ℚ} (hq : 0 < q) (h : -1074 < place q) : 2 ^ 52 ≤ mantissa q := by
  have hbig : ((2 ^ 52 : ℕ) : ℚ) ≤ q / 2 ^ place q := by
    rw [le_div_iff₀ (zpow_pos two_pos _), Nat.cast_pow, Nat.cast_ofNat, ← zpow_natCast,
      ← zpow_add₀ two_ne_zero, zpow_le_iff hq]
    unfold place at h ⊢
    push_cast
    omega
  exact (Nat.le_floor hbig).trans (roundedMantissa_bits (div_place_nonneg hq)).1

theorem canonical_mantissa {q : ℚ} (hq : 0 < q) (hpos : 0 < mantissa q)
    (hne : mantissa q ≠ 2 ^ 53) : Canonical (mantissa q) (place q) := by
  have hplace : -1074 ≤ place q := le_max_right _ _
  refine ⟨hpos, (mantissa_le hq).lt_of_ne hne, hplace, ?_⟩
  rcases hplace.eq_or_lt with heq | hlt
  · exact .inr heq.symm
  · exact .inl (le_mantissa hq hlt)

/-- The nearest float is zero or canonical. -/
theorem exists_nearest {q : ℚ} (hq : 0 < q) :
    ∃ m e, nearest q = unsigned m e ∧ (m = 0 ∨ Canonical m e) := by
  unfold nearest
  split
  · have hplace : -1074 ≤ place q := le_max_right _ _
    exact ⟨_, _, rfl, .inr ⟨by decide, by decide, by omega, .inl le_rfl⟩⟩
  · next hne =>
    exact ⟨_, _, rfl, (mantissa q).eq_zero_or_pos.imp_right fun hpos =>
      canonical_mantissa hq hpos hne⟩

/-- A multiple of the last bit's value is its own nearest float. -/
theorem nearest_exact {q : ℚ} (hq : 0 < q) {n : ℕ} (h : q / 2 ^ place q = n) :
    nearest q = unsigned n (place q) ∧ Canonical n (place q) := by
  have hmantissa : mantissa q = n := by rw [mantissa, h, roundedMantissa_bits_natCast]
  have hpos : 0 < n := by
    have := div_pos hq (zpow_pos two_pos (place q))
    rw [h] at this
    exact_mod_cast this
  have hlt : n < 2 ^ 53 := by
    have := lt_of_place hq
    rw [h] at this
    exact_mod_cast this
  have hne : mantissa q ≠ 2 ^ 53 := by omega
  refine ⟨by rw [nearest, if_neg hne, hmantissa], ?_⟩
  have := canonical_mantissa hq (by omega) hne
  rwa [hmantissa] at this

/-! ## Whole numbers -/

/-- The nearest float of a whole number is whole. -/
theorem nearest_natCast {n : ℕ} (hn : 0 < n) :
    ∃ m e, nearest n = unsigned m e ∧ ∃ k : ℕ, (m * 2 ^ e : ℚ) = k := by
  have hq : (0 : ℚ) < n := by exact_mod_cast hn
  rcases le_or_gt 0 (place (n : ℚ)) with h | h
  · have hvalue (m : ℕ) {e : ℤ} (he : 0 ≤ e) : ∃ k : ℕ, (m * 2 ^ e : ℚ) = k := by
      lift e to ℕ using he
      exact ⟨m * 2 ^ e, by push_cast; rfl⟩
    unfold nearest
    split
    · exact ⟨_, _, rfl, hvalue _ (by omega)⟩
    · exact ⟨_, _, rfl, hvalue _ h⟩
  · obtain ⟨k, hk⟩ := Int.eq_ofNat_of_zero_le (neg_nonneg.2 h.le)
    have hexact : (n : ℚ) / 2 ^ place (n : ℚ) = (n * 2 ^ k : ℕ) := by
      rw [div_eq_mul_inv, ← zpow_neg, hk, zpow_natCast]
      push_cast
      rfl
    refine ⟨_, _, (nearest_exact hq hexact).1, n, ?_⟩
    rw [← hexact, div_mul_cancel₀ _ (zpow_ne_zero _ two_ne_zero)]

/-- The exponent of the nearest float tells whether a whole number is below `2 ^ 63`,
unless it is rounded to that power. -/
theorem nearest_exponent {n : ℕ} (hn : 0 < n) :
    (2 ^ 63 ≤ n → ∃ m e, nearest n = unsigned m e ∧ 11 ≤ e) ∧
      (n < 2 ^ 63 → nearest n = unsigned (2 ^ 52) 11 ∨
        ∃ m e, nearest n = unsigned m e ∧ e < 11) := by
  have hlog : Int.log 2 (n : ℚ) = n.log2 := log_natCast n
  constructor
  · intro h
    have hle := (Nat.le_log2 hn.ne').2 h
    have hplace : 11 ≤ place (n : ℚ) := by
      rw [place, hlog]
      omega
    unfold nearest
    split
    · exact ⟨_, _, rfl, by omega⟩
    · exact ⟨_, _, rfl, hplace⟩
  · intro h
    have hlt := (Nat.log2_lt hn.ne').2 h
    have hplace : place (n : ℚ) ≤ 10 := by
      rw [place, hlog]
      omega
    unfold nearest
    split
    · rcases hplace.eq_or_lt with heq | hlt
      · exact .inl (by rw [heq]; rfl)
      · exact .inr ⟨_, _, rfl, by omega⟩
    · exact .inr ⟨_, _, rfl, by omega⟩

end CommandChain.Number
