import CommandChain.Number.Dyadic
import CommandChain.Proofs.Number.Rounding

/-!
# Floats as mantissa and exponent

A float that is no infinity or NaN is unpacked to a canonical mantissa and
exponent, up to exponent 971, and these are packed without loss
(`unpack_pack_finite`). From this follow the magnitude of a float, its sign and
when it is whole.
-/

namespace CommandChain.Number

open Float.Model UnpackedFloat

section

variable {sign : Sign} {m : ℕ} {e : ℤ}

theorem pack_unpack (x : Float.Model) : Float.Model.pack x.unpack = x := by
  obtain ⟨bits, hvalid⟩ := x
  unfold Float.Model.pack Float.Model.unpack
  simp only [pack_unpack_of_valid hvalid]

theorem implicit_append (m : BitVec 52) : (1#1 ++ m).toNat = 2 ^ 52 + m.toNat := by
  rw [BitVec.toNat_append, ← Nat.shiftLeft_add_eq_or_of_lt m.isLt]
  rfl

theorem unpack_normal {exponent : BitVec 11} {mantissa : BitVec 52} (h : exponent ≠ 0#11)
    (h' : exponent ≠ -1#11) :
    UnpackedFloat.unpack .binary64 (packComponents .binary64 sign exponent mantissa) =
      .finite sign (2 ^ 52 + mantissa.toNat) (exponent.toNat - 1075) (by positivity) := by
  have himplicit := implicit_append mantissa
  simp only [UnpackedFloat.unpack, unpackExponent_packComponents, unpackMantissa_packComponents,
    unpackSign_packComponents, Sign.ofBitVec_toBitVec, h, h', if_false, himplicit]
  rfl

theorem unpack_subnormal {mantissa : BitVec 52} (h : 0 < mantissa.toNat) :
    UnpackedFloat.unpack .binary64 (packComponents .binary64 sign 0#11 mantissa) =
      .finite sign mantissa.toNat (-1074) h := by
  have hne : mantissa ≠ 0#52 := fun h0 => by simp [h0] at h
  simp [UnpackedFloat.unpack, hne]
  rfl

theorem canonical_of_components {sign' : Sign} {exponent : BitVec 11} {mantissa : BitVec 52}
    {hm : 0 < m}
    (h : UnpackedFloat.unpack .binary64 (packComponents .binary64 sign' exponent mantissa) =
      .finite sign m e hm) : Canonical m e ∧ e ≤ 971 := by
  have hmantissa : mantissa.toNat < 2 ^ 52 := mantissa.isLt
  have hexponent : exponent.toNat < 2 ^ 11 := exponent.isLt
  by_cases hall : exponent = -1#11
  · simp only [UnpackedFloat.unpack, unpackExponent_packComponents, hall, if_true] at h
    split at h <;> cases h
  by_cases hzero : exponent = 0#11
  · rw [hzero] at h
    by_cases hpos : 0 < mantissa.toNat
    · rw [unpack_subnormal hpos] at h
      cases h
      exact ⟨⟨hm, by omega, by omega, .inr rfl⟩, by omega⟩
    · have hnone : mantissa = 0#52 := BitVec.eq_of_toNat_eq (Nat.eq_zero_of_not_pos hpos)
      rw [hnone] at h
      have hpacked : packComponents .binary64 sign' 0#11 0#52 = packedZero .binary64 sign' := rfl
      rw [hpacked, unpack_packedZero] at h
      cases h
  · rw [unpack_normal hzero hall] at h
    cases h
    have hlow : exponent.toNat ≠ 0 := fun h0 => hzero (BitVec.eq_of_toNat_eq h0)
    have hhigh : exponent.toNat ≠ 2047 := fun h0 => hall (BitVec.eq_of_toNat_eq h0)
    exact ⟨⟨hm, by omega, by omega, .inl (by omega)⟩, by omega⟩

/-- What is unpacked is canonical. -/
theorem canonical_of_unpack {x : Float.Model} {hm : 0 < m}
    (h : x.unpack = .finite sign m e hm) : Canonical m e ∧ e ≤ 971 := by
  have hbits := @packComponents_unpackSign_unpackExponent_unpackMantissa .binary64 x.toBits.toBitVec
  rw [Float.Model.unpack, ← hbits] at h
  exact canonical_of_components h

theorem biased (e : ℤ) :
    (e + (Format.binary64.exponentBias : ℤ) + (52 : ℕ)).toNat = (e + 1075).toNat := by
  rw [show Format.binary64.exponentBias = 1023 from rfl]
  congr 1
  omega

/-- A canonical number is packed without loss. -/
theorem unpack_pack_finite (h : Canonical m e) (he : e ≤ 971) :
    (Float.Model.pack (.finite sign m e h.pos)).unpack = .finite sign m e h.pos := by
  have hexponent := h.exponent
  have hlt := h.lt
  change UnpackedFloat.unpack .binary64 (UnpackedFloat.pack .binary64 _) = _
  unfold UnpackedFloat.pack
  dsimp only
  rw [biased, if_neg (by omega)]
  by_cases hm : 2 ^ 52 ≤ m
  · have hlog : m.log2 = 52 := (Nat.log2_eq_iff h.pos.ne').2 ⟨hm, hlt⟩
    have hbits : (BitVec.ofNat 11 (e + 1075).toNat).toNat = (e + 1075).toNat := by
      rw [BitVec.toNat_ofNat, Nat.mod_eq_of_lt (by omega)]
    have hrest : (BitVec.ofNat 52 m).toNat = m - 2 ^ 52 := by
      rw [BitVec.toNat_ofNat]
      omega
    rw [if_pos (by rw [hlog]; rfl), unpack_normal]
    · rw [finite.injEq, hbits, hrest]
      exact ⟨rfl, by omega, by omega⟩
    · intro h0
      rw [h0, BitVec.toNat_zero] at hbits
      omega
    · intro h0
      rw [h0] at hbits
      simp at hbits
      omega
  · have hlog : m.log2 < 52 := (Nat.log2_lt h.pos.ne').2 (by omega)
    have hbits : (BitVec.ofNat 52 m).toNat = m := by
      rw [BitVec.toNat_ofNat, Nat.mod_eq_of_lt (by omega)]
    have hne : ¬ m.log2 + 1 = Format.binary64.mantissaBits := by
      rw [show Format.binary64.mantissaBits = 53 from rfl]
      omega
    rw [if_neg hne, unpack_subnormal (by rw [hbits]; exact h.pos)]
    simp only [hbits, h.normal.resolve_left hm]

/-- A greater exponent gives infinity. -/
theorem unpack_pack_overflow (hm : 0 < m) (he : 971 < e) :
    (Float.Model.pack (.finite sign m e hm)).unpack = .infinity sign := by
  change UnpackedFloat.unpack .binary64 (UnpackedFloat.pack .binary64 _) = _
  unfold UnpackedFloat.pack
  dsimp only
  rw [biased, if_pos (by omega)]
  simp [UnpackedFloat.unpack, packedInfinity]

/-! ## Unsigned numbers -/

@[simp] theorem unsigned_zero (e : ℤ) : unsigned 0 e = .zero .positive := rfl

theorem unsigned_eq (hm : 0 < m) : unsigned m e = .finite .positive m e hm :=
  dif_neg hm.ne'

theorem unpack_pack_zero : (Float.Model.pack (.zero sign)).unpack = .zero sign :=
  unpack_packedZero

theorem unpack_pack_unsigned (h : Canonical m e) (he : e ≤ 971) :
    (Float.Model.pack (unsigned m e)).unpack = unsigned m e := by
  rw [unsigned_eq h.pos, unpack_pack_finite h he]

end

/-! ## Magnitude and sign -/

section

variable {x : Float} {m : ℕ} {e : ℤ}

/-- What a float with a magnitude is. -/
theorem magnitude?_eq_some (h : magnitude? x = some (m, e)) :
    (∃ sign, x.toModel.unpack = .zero sign ∧ m = 0 ∧ e = 0) ∨
      ∃ sign hm, x.toModel.unpack = .finite sign m e hm ∧ Canonical m e ∧ e ≤ 971 := by
  unfold magnitude? at h
  split at h
  · next sign m' e' hm hx =>
    cases h
    exact .inr ⟨sign, hm, hx, canonical_of_unpack hx⟩
  · next sign hx =>
    cases h
    exact .inl ⟨sign, hx, rfl, rfl⟩
  · cases h

theorem isFinite_eq (x : Float) : x.isFinite = (magnitude? x).isSome := by
  change x.toModel.unpack.isFinite = _
  unfold magnitude?
  cases x.toModel.unpack <;> rfl

theorem exists_magnitude (h : x.isFinite) : ∃ m e, magnitude? x = some (m, e) := by
  rw [isFinite_eq] at h
  obtain ⟨⟨m, e⟩, h⟩ := Option.isSome_iff_exists.1 h
  exact ⟨m, e, h⟩

theorem isNaN_of_magnitude (h : magnitude? x = some (m, e)) : x.isNaN = false := by
  change x.toModel.unpack.isNaN = false
  rcases magnitude?_eq_some h with ⟨sign, hx, -⟩ | ⟨sign, hm, hx, -⟩
  · rw [hx]
    rfl
  · rw [hx]
    rfl

/-- A number equals itself. -/
theorem beq_self (h : x.isFinite) : x == x := by
  obtain ⟨m, e, h⟩ := exists_magnitude h
  have hnan := isNaN_of_magnitude h
  rw [Float.isNaN_eq_decide_eq_nan] at hnan
  exact Float.beq_self_iff.2 (of_decide_eq_false hnan)

theorem abs_eq (h : magnitude? x = some (m, e)) : x.abs = .ofModel (.pack (unsigned m e)) := by
  change Float.ofModel (.pack x.toModel.unpack.abs) = _
  rcases magnitude?_eq_some h with ⟨sign, hx, rfl, rfl⟩ | ⟨sign, hm, hx, -⟩
  · rw [hx]
    rfl
  · rw [hx, unsigned_eq hm]
    rfl

theorem unpack_abs (h : magnitude? x = some (m, e)) : x.abs.toModel.unpack = unsigned m e := by
  rw [abs_eq h]
  rcases magnitude?_eq_some h with ⟨sign, hx, rfl, rfl⟩ | ⟨sign, hm, hx, hcanonical, he⟩
  · exact unpack_pack_zero
  · exact unpack_pack_unsigned hcanonical he

/-- The sign is the first bit. -/
theorem sign_eq (x : Float) : Sign.ofBitVec (@unpackSign .binary64 x.toModel.toBits.toBitVec) =
    if isNegative x then .negative else .positive := by
  have hsign : (@unpackSign .binary64 x.toModel.toBits.toBitVec).toNat =
      x.toBits.toNat >>> 63 % 2 := by
    rw [unpackSign_def, BitVec.extractLsb'_toNat]
    rfl
  have hlt : x.toBits.toNat < 2 ^ 64 := x.toBits.toNat_lt
  rw [Nat.shiftRight_eq_div_pow] at hsign
  unfold isNegative Sign.ofBitVec
  rw [Nat.one_shiftLeft]
  by_cases h : 2 ^ 63 ≤ x.toBits.toNat
  · have hone : ¬ @unpackSign .binary64 x.toModel.toBits.toBitVec = 0#1 := fun h0 => by
      rw [h0, BitVec.toNat_zero] at hsign
      omega
    rw [if_neg hone, if_pos (by simpa using h)]
  · have hzero : @unpackSign .binary64 x.toModel.toBits.toBitVec = 0#1 :=
      BitVec.eq_of_toNat_eq (by rw [hsign, BitVec.toNat_zero]; omega)
    rw [if_pos hzero, if_neg (by simpa using h)]

/-- A float is its magnitude with its sign. -/
theorem signed_unpack_abs (x : Float) :
    (if isNegative x then x.toModel.unpack.abs.neg else x.toModel.unpack.abs) =
      x.toModel.unpack := by
  have hsign := sign_eq x
  unfold Float.Model.unpack UnpackedFloat.unpack
  dsimp only
  rw [hsign]
  by_cases hneg : isNegative x
  · simp only [hneg, if_true]
    split_ifs <;> rfl
  · simp only [hneg]
    split_ifs <;> rfl

theorem signed_abs (h : magnitude? x = some (m, e)) :
    (if isNegative x then -x.abs else x.abs) = x := by
  have habs : x.abs.toModel.unpack = x.toModel.unpack.abs := by
    rw [unpack_abs h]
    rcases magnitude?_eq_some h with ⟨sign, hx, rfl, rfl⟩ | ⟨sign, hm, hx, -⟩
    · rw [hx]
      rfl
    · rw [hx, unsigned_eq hm]
      rfl
  have hneg : -x.abs = .ofModel (.pack x.toModel.unpack.abs.neg) := by
    rw [← habs]
    rfl
  have hx : x = Float.ofModel (.pack x.toModel.unpack) := by rw [pack_unpack]
  rw [hneg]
  conv_rhs => rw [hx, ← signed_unpack_abs x]
  split <;> rfl

/-- The number whose nearest float is the magnitude of a float. -/
theorem nearest_of_abs {q : ℚ} (hq : 0 < q) (h : magnitude? x = some (m, e))
    (hx : Float.ofModel (.pack (nearest q)) = x.abs) : nearest q = unsigned m e := by
  have hunpack := congrArg (fun y : Float => y.toModel.unpack) hx
  simp only [unpack_abs h] at hunpack
  obtain ⟨m', e', hnearest, hm'⟩ := exists_nearest hq
  rw [hnearest] at hunpack ⊢
  rw [← hunpack]
  rcases hm' with rfl | hcanonical
  · exact unpack_pack_zero.symm
  · by_cases he' : e' ≤ 971
    · exact (unpack_pack_unsigned hcanonical he').symm
    · rw [unsigned_eq hcanonical.pos, unpack_pack_overflow _ (by omega)] at hunpack
      unfold unsigned at hunpack
      split at hunpack <;> cases hunpack

theorem unsigned_inj {m' : ℕ} {e' : ℤ} (hm : 0 < m) (h : unsigned m e = unsigned m' e') :
    m = m' ∧ e = e' := by
  rw [unsigned_eq hm] at h
  unfold unsigned at h
  split at h
  · cases h
  · cases h
    exact ⟨rfl, rfl⟩

/-- A float is whole if its magnitude is. -/
theorem isWhole_iff (h : magnitude? x = some (m, e)) :
    isWhole x ↔ ∃ n : ℕ, (m * 2 ^ e : ℚ) = n := by
  unfold isWhole
  rw [h]
  simp only [Bool.or_eq_true, decide_eq_true_eq, beq_iff_eq, Nat.one_shiftLeft]
  rcases le_or_gt 0 e with he | he
  · lift e to ℕ using he
    simp only [Nat.cast_nonneg, true_or, true_iff]
    exact ⟨m * 2 ^ e, by push_cast; rfl⟩
  · obtain ⟨k, rfl⟩ : ∃ k : ℕ, e = -k := ⟨(-e).toNat, by omega⟩
    have hpow : (2 : ℚ) ^ k ≠ 0 := by positivity
    rw [neg_neg, Int.toNat_natCast, or_iff_right (by omega), ← Nat.dvd_iff_mod_eq_zero]
    constructor
    · rintro ⟨n, rfl⟩
      exact ⟨n, by rw [zpow_neg, zpow_natCast]; push_cast; field_simp⟩
    · rintro ⟨n, hn⟩
      rw [zpow_neg, zpow_natCast, ← div_eq_mul_inv, div_eq_iff hpow] at hn
      exact ⟨n, by rw [mul_comm]; exact_mod_cast hn⟩

/-- Magnitudes are compared by exponent and mantissa. -/
theorem abs_lt_iff {y : Float} {m' : ℕ} {e' : ℤ} (h : magnitude? x = some (m, e)) (hm' : 0 < m')
    (hy : y.toModel.unpack = unsigned m' e') :
    x.abs < y ↔ m = 0 ∨ e < e' ∨ e = e' ∧ m < m' := by
  have hlt : x.abs < y ↔ x.abs.toModel.unpack.lt y.toModel.unpack = true := decide_eq_true_iff
  rw [hlt, unpack_abs h, hy, unsigned_eq hm']
  rcases Nat.eq_zero_or_pos m with rfl | hm
  · simp [UnpackedFloat.lt, UnpackedFloat.compare]
  · rw [unsigned_eq hm]
    simp [UnpackedFloat.lt, UnpackedFloat.compare, Ordering.then_eq_lt, Int.compare_eq_lt,
      Nat.compare_eq_lt, hm.ne']

theorem canonical_magnitude (h : magnitude? x = some (m, e)) (hm : 0 < m) :
    Canonical m e ∧ e ≤ 971 := by
  rcases magnitude?_eq_some h with ⟨-, -, rfl, -⟩ | ⟨-, -, -, hcanonical⟩
  · omega
  · exact hcanonical

theorem canonical_two_pow : Canonical (2 ^ 52) 11 :=
  ⟨by decide, by decide, by decide, .inl le_rfl⟩

theorem two_pow_eq : (9223372036854775808 : Float) = .ofModel (.pack (unsigned (2 ^ 52) 11)) := by
  decide +kernel

/-- The magnitudes below `2 ^ 63`. -/
theorem abs_lt_two_pow (h : magnitude? x = some (m, e)) :
    x.abs < 9223372036854775808 ↔ m = 0 ∨ e < 11 := by
  have hunpack : (9223372036854775808 : Float).toModel.unpack = unsigned (2 ^ 52) 11 := by
    rw [two_pow_eq]
    exact unpack_pack_unsigned canonical_two_pow (by decide)
  rw [abs_lt_iff h (by decide) hunpack]
  constructor
  · rintro (hm | he | ⟨rfl, hm⟩)
    · exact .inl hm
    · exact .inr he
    · rcases Nat.eq_zero_or_pos m with h0 | hpos
      · exact .inl h0
      · have := (canonical_magnitude h hpos).1.normal
        omega
  · exact Or.imp_right .inl

theorem abs_lt_of_lt_1e15 (h : magnitude? x = some (m, e)) (hx : x.abs < 1e15) :
    x.abs < 9223372036854775808 := by
  have hliteral : (1e15 : Float) = .ofModel (.pack (unsigned 8000000000000000 (-3))) := by
    decide +kernel
  have hcanonical : Canonical 8000000000000000 (-3) :=
    ⟨by decide, by decide, by decide, .inl (by decide)⟩
  have hunpack : (1e15 : Float).toModel.unpack = unsigned 8000000000000000 (-3) := by
    rw [hliteral]
    exact unpack_pack_unsigned hcanonical (by decide)
  rw [abs_lt_iff h (by decide) hunpack] at hx
  rw [abs_lt_two_pow h]
  omega

theorem finite_of_beq_zero (h : x == 0) : x.isFinite ∧ x.abs < 9223372036854775808 := by
  rcases (Float.beq_iff_ne_nan_and_eq.1 h).2.2 with rfl | ⟨rfl, -⟩ | ⟨rfl, -⟩
  · decide +kernel
  · decide +kernel
  · decide +kernel

end

end CommandChain.Number
