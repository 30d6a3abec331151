import CommandChain.Proofs.Number.Packing

/-!
# The total order of floats

`rank` is read off the bits of a float. It is a place by sign, exponent and mantissa of what
the float unpacks to (`rank_eq_ordinal`).

Squares, sums of squares and their roots are zero, finite or infinite, all without a sign
(`Plus`). Such numbers are ranked as `<` compares them (`Plus.lt_iff`), and none behind NaN
(`Plus.rank_bounds`).
-/

namespace CommandChain.Number

open Float.Model UnpackedFloat

/-- The place of a magnitude, and its mirror image before zero. -/
def oriented : Sign → ℤ → ℤ
  | .positive, n => n
  | .negative, n => -n - 1

/-- Place of an unpacked float in the total order. -/
def ordinal : UnpackedFloat → ℤ
  | .zero sign => oriented sign 0
  | .finite sign m e _ => oriented sign ((e + 1074) * 2 ^ 52 + m)
  | .infinity sign => oriented sign (2047 * 2 ^ 52)
  | .notANumber => 2047 * 2 ^ 52 + 2 ^ 51

theorem toNat_packComponents (sign : Sign) (exponent : BitVec 11) (mantissa : BitVec 52) :
    (packComponents .binary64 sign exponent mantissa).toNat =
      sign.toBitVec.toNat * 2 ^ 63 + exponent.toNat * 2 ^ 52 + mantissa.toNat := by
  have hhigh : (sign.toBitVec ++ exponent).toNat =
      sign.toBitVec.toNat * 2 ^ 11 + exponent.toNat := by
    rw [BitVec.toNat_append, ← Nat.shiftLeft_add_eq_or_of_lt exponent.isLt, Nat.shiftLeft_eq]
  change (sign.toBitVec ++ exponent ++ mantissa).toNat = _
  rw [BitVec.toNat_append, ← Nat.shiftLeft_add_eq_or_of_lt mantissa.isLt, Nat.shiftLeft_eq, hhigh]
  ring

/-- A rank by sign, exponent and mantissa. -/
theorem rank_components {x : Float} {sign : Sign} {exponent : BitVec 11} {mantissa : BitVec 52}
    (h : packComponents .binary64 sign exponent mantissa = x.toModel.toBits.toBitVec) :
    rank x = oriented sign (exponent.toNat * 2 ^ 52 + mantissa.toNat) := by
  have hbits : x.toBits.toNat =
      sign.toBitVec.toNat * 2 ^ 63 + exponent.toNat * 2 ^ 52 + mantissa.toNat := by
    rw [← toNat_packComponents, h]
    rfl
  have hexponent : exponent.toNat < 2 ^ 11 := exponent.isLt
  have hmantissa : mantissa.toNat < 2 ^ 52 := mantissa.isLt
  unfold rank
  dsimp only
  rw [hbits, Nat.one_shiftLeft]
  cases sign with
  | positive =>
    have hzero : Sign.positive.toBitVec.toNat = 0 := rfl
    rw [hzero, if_pos (by omega)]
    simp only [oriented]
    omega
  | negative =>
    have hone : Sign.negative.toBitVec.toNat = 1 := rfl
    rw [hone, if_neg (by omega)]
    simp only [oriented]
    omega

theorem ordinal_components {sign : Sign} {exponent : BitVec 11} {mantissa : BitVec 52}
    (h : (UnpackedFloat.unpack .binary64
      (packComponents .binary64 sign exponent mantissa)).isNaN = false) :
    ordinal (UnpackedFloat.unpack .binary64 (packComponents .binary64 sign exponent mantissa)) =
      oriented sign (exponent.toNat * 2 ^ 52 + mantissa.toNat) := by
  by_cases hall : exponent = -1#11
  · by_cases hmantissa : mantissa = 0#52
    · simp [UnpackedFloat.unpack, hall, hmantissa, ordinal]
    · simp [UnpackedFloat.unpack, hall, hmantissa, UnpackedFloat.isNaN] at h
  by_cases hzero : exponent = 0#11
  · rw [hzero]
    by_cases hpos : 0 < mantissa.toNat
    · rw [unpack_subnormal hpos]
      simp [ordinal]
    · have hnone : mantissa = 0#52 := BitVec.eq_of_toNat_eq (Nat.eq_zero_of_not_pos hpos)
      rw [hnone]
      have hpacked : packComponents .binary64 sign 0#11 0#52 = packedZero .binary64 sign := rfl
      rw [hpacked, unpack_packedZero]
      rfl
  · rw [unpack_normal hzero hall]
    simp only [ordinal]
    congr 1
    push_cast
    ring

/-- The rank of a float is the place of what it unpacks to. -/
theorem rank_eq_ordinal (x : Float) : rank x = ordinal x.toModel.unpack := by
  by_cases hnan : x.isNaN
  · have hx : x = .nan := by
      rw [Float.isNaN_eq_decide_eq_nan] at hnan
      exact of_decide_eq_true hnan
    rw [hx]
    decide +kernel
  · have hbits :=
      @packComponents_unpackSign_unpackExponent_unpackMantissa .binary64 x.toModel.toBits.toBitVec
    change ¬ (UnpackedFloat.unpack .binary64 x.toModel.toBits.toBitVec).isNaN at hnan
    rw [rank_components hbits, Float.Model.unpack]
    conv_rhs => rw [← hbits]
    rw [← hbits] at hnan
    exact (ordinal_components (Bool.eq_false_iff.2 hnan)).symm

/-! ## Numbers without a sign -/

/-- Zero, the finite numbers behind it, and infinity. -/
inductive Plus : UnpackedFloat → Prop where
  | zero : Plus (.zero .positive)
  | finite {m : ℕ} {e : ℤ} (hm : 0 < m) : Plus (.finite .positive m e hm)
  | infinity : Plus (.infinity .positive)

namespace Plus

variable {u v : UnpackedFloat} {x y : Float}

theorem not_isNaN (h : Plus u) : u.isNaN = false := by cases h <;> rfl

theorem roundWithAccuracy (m : ℕ) (e : ℤ) (accuracy : Accuracy) :
    Plus (UnpackedFloat.roundWithAccuracy .binary64 .positive m e accuracy) := by
  unfold UnpackedFloat.roundWithAccuracy
  dsimp only
  split
  · exact .zero
  · exact .finite _

theorem components {exponent : BitVec 11} (h : exponent ≠ -1#11) (mantissa : BitVec 52) :
    Plus (UnpackedFloat.unpack .binary64
      (packComponents .binary64 .positive exponent mantissa)) := by
  by_cases hzero : exponent = 0#11
  · rw [hzero]
    by_cases hpos : 0 < mantissa.toNat
    · rw [unpack_subnormal hpos]
      exact .finite hpos
    · have hnone : mantissa = 0#52 := BitVec.eq_of_toNat_eq (Nat.eq_zero_of_not_pos hpos)
      have hpacked : packComponents .binary64 .positive 0#11 0#52 =
          packedZero .binary64 .positive := rfl
      rw [hnone, hpacked, unpack_packedZero]
      exact .zero
  · rw [unpack_normal hzero h]
    exact .finite _

/-- Packing keeps the sign; a number that is too great becomes infinity. -/
theorem repack (h : Plus u) : Plus (Float.Model.pack u).unpack := by
  cases h with
  | zero => exact unpack_pack_zero ▸ .zero
  | infinity => exact .infinity
  | @finite m e hm =>
    change Plus (UnpackedFloat.unpack .binary64 (UnpackedFloat.pack .binary64 _))
    unfold UnpackedFloat.pack
    dsimp only
    rw [biased]
    by_cases hgreat : 2 ^ 11 ≤ (e + 1075).toNat + 1
    · rw [if_pos hgreat]
      exact .infinity
    rw [if_neg hgreat]
    split
    · refine components (fun h => ?_) _
      have hbits := congrArg BitVec.toNat h
      rw [BitVec.toNat_ofNat, Nat.mod_eq_of_lt (by omega)] at hbits
      have hall : (-1#11).toNat = 2047 := rfl
      omega
    · exact components (by decide) _

/-! ### Operations -/

theorem mul_self (h : u.isNaN = false) : Plus (UnpackedFloat.mul .binary64 u u) := by
  have hsquare (sign : Sign) : sign * sign = .positive := by cases sign <;> rfl
  cases u with
  | notANumber => cases h
  | infinity sign =>
    simp only [UnpackedFloat.mul, hsquare]
    exact .infinity
  | zero sign =>
    simp only [UnpackedFloat.mul, hsquare]
    exact .zero
  | finite sign m e hm =>
    simp only [UnpackedFloat.mul, hsquare]
    exact roundWithAccuracy _ _ _

theorem normalize {m : ℤ} (hm : 0 < m) (e : ℤ) :
    Plus (UnpackedFloat.normalize .binary64 m e .positive) := by
  unfold UnpackedFloat.normalize
  rw [Int.compare_eq_gt.2 hm]
  exact roundWithAccuracy _ _ _

theorem add (hu : Plus u) (hv : Plus v) : Plus (UnpackedFloat.add .binary64 u v) := by
  cases hu with
  | zero => cases hv <;> constructor
  | infinity => cases hv <;> constructor
  | @finite m e hm =>
    cases hv with
    | zero => constructor
    | infinity => constructor
    | @finite m' e' hm' =>
      simp only [UnpackedFloat.add, decreaseExponent, Sign.apply]
      have hpos (n k : ℕ) (hn : 0 < n) : 0 < n <<< k := by
        rw [Nat.shiftLeft_eq]
        positivity
      have hleft := hpos m (e - min e e').toNat hm
      have hright := hpos m' (e' - min e e').toNat hm'
      exact normalize (by omega) _

theorem sqrt (h : Plus u) : Plus (UnpackedFloat.sqrt .binary64 u) := by
  cases h with
  | zero => exact .zero
  | infinity => exact .infinity
  | finite hm => exact roundWithAccuracy _ _ _

/-! ### Comparisons -/

section

variable {m m' : ℕ} {e e' : ℤ}

theorem magnitude_lt_iff (h : Canonical m e) (h' : Canonical m' e') :
    (e + 1074) * 2 ^ 52 + m < (e' + 1074) * 2 ^ 52 + m' ↔ e < e' ∨ e = e' ∧ m < m' := by
  have hm := h.lt
  have hm' := h'.lt
  have he := h.exponent
  have he' := h'.exponent
  rcases h.normal with hnormal | hnormal <;> rcases h'.normal with hnormal' | hnormal' <;> omega

theorem magnitude_pos (h : Canonical m e) : 0 < (e + 1074) * 2 ^ 52 + (m : ℤ) := by
  have hm := h.pos
  have he := h.exponent
  omega

theorem magnitude_lt_infinity (h : Canonical m e) (he : e ≤ 971) :
    (e + 1074) * 2 ^ 52 + (m : ℤ) < 2047 * 2 ^ 52 := by
  have hm := h.lt
  omega

end

/-- What is finite and not zero is canonical, as all that is unpacked. -/
def Sound (u : UnpackedFloat) : Prop :=
  ∀ sign m e hm, u = .finite sign m e hm → Canonical m e ∧ e ≤ 971

theorem sound_unpack (x : Float.Model) : Sound x.unpack := fun _ _ _ _ h => canonical_of_unpack h

theorem compare_eq_lt_iff (hu : Plus u) (hv : Plus v) (hcu : Sound u) (hcv : Sound v) :
    u.compare v = some .lt ↔ ordinal u < ordinal v := by
  cases hu with
  | zero =>
    cases hv with
    | zero => decide
    | infinity => decide
    | finite hm' =>
      refine iff_of_true rfl ?_
      exact magnitude_pos (hcv _ _ _ _ rfl).1
  | infinity =>
    cases hv with
    | zero => decide
    | infinity => decide
    | finite hm' =>
      obtain ⟨hcanonical, he⟩ := hcv _ _ _ _ rfl
      exact iff_of_false nofun (magnitude_lt_infinity hcanonical he).not_gt
  | finite hm =>
    obtain ⟨hcanonical, he⟩ := hcu _ _ _ _ rfl
    cases hv with
    | zero => exact iff_of_false nofun (magnitude_pos hcanonical).not_gt
    | infinity => exact iff_of_true rfl (magnitude_lt_infinity hcanonical he)
    | finite hm' =>
      refine Iff.trans ?_ (magnitude_lt_iff hcanonical (hcv _ _ _ _ rfl).1).symm
      simp [UnpackedFloat.compare, Ordering.then_eq_lt, Int.compare_eq_lt, Nat.compare_eq_lt]

/-- Numbers without a sign are ranked as they are compared. -/
theorem lt_iff (hx : Plus x.toModel.unpack) (hy : Plus y.toModel.unpack) :
    x < y ↔ rank x < rank y := by
  have hlt : x < y ↔ x.toModel.unpack.lt y.toModel.unpack = true := decide_eq_true_iff
  rw [hlt, UnpackedFloat.lt, beq_iff_eq, rank_eq_ordinal, rank_eq_ordinal]
  exact compare_eq_lt_iff hx hy (sound_unpack _) (sound_unpack _)

theorem ordinal_bounds (hu : Plus u) (hcu : Sound u) :
    0 ≤ ordinal u ∧ ordinal u ≤ 2047 * 2 ^ 52 := by
  cases hu with
  | zero => decide
  | infinity => decide
  | finite hm =>
    obtain ⟨hcanonical, he⟩ := hcu _ _ _ _ rfl
    exact ⟨(magnitude_pos hcanonical).le, (magnitude_lt_infinity hcanonical he).le⟩

/-- They are ranked between the negative and the positive NaN. -/
theorem rank_bounds (hx : Plus x.toModel.unpack) : 0 ≤ rank x ∧ rank x < rank .nan := by
  have hnan : rank .nan = 2047 * 2 ^ 52 + 2 ^ 51 := by decide +kernel
  rw [hnan, rank_eq_ordinal]
  have hbounds := ordinal_bounds hx (sound_unpack x.toModel)
  omega

end Plus

end CommandChain.Number
