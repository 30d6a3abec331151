import CommandChain.Proofs.Number.Reading

/-!
# Decimals that read back

The decimals that are written for a float `± m · 2 ^ e` are read as its magnitude:
the one with the fewest digits (`shortest_toFloat`), the exact one and, for a whole
number, the one with a given number of decimal places. The shortest decimal is a
natural number exactly for a whole number (`shortest_whole`).
-/

namespace CommandChain.Number.Decimal

variable {x : Float} {m n : ℕ} {e k : ℤ} {d : Decimal}

theorem toFloat_of_value (h : magnitude? x = some (m, e)) (hd : d.value = m * 2 ^ e) :
    d.toFloat = x.abs := by
  rw [toFloat_eq, hd, abs_eq h]
  rcases magnitude?_eq_some h with ⟨-, -, rfl, rfl⟩ | ⟨-, -, -, hcanonical, -⟩
  · rw [Nat.cast_zero, zero_mul, ofRat_zero]
    rfl
  · rw [ofRat, nearest_canonical hcanonical]

/-- A float other than zero is read from a number other than zero. -/
theorem value_pos (h : magnitude? x = some (m, e)) (hm : 0 < m) (hd : d.toFloat = x.abs) :
    0 < d.value := by
  have hnonneg : 0 ≤ d.value := mul_nonneg (by positivity) (zpow_nonneg (by norm_num) _)
  refine hnonneg.lt_of_ne fun h0 => ?_
  have hunpack := unpack_abs h
  rw [← hd, toFloat_eq, ← h0, ofRat_zero, unsigned_eq hm] at hunpack
  cases hunpack

theorem nearest_value (h : magnitude? x = some (m, e)) (hm : 0 < m) (hd : d.toFloat = x.abs) :
    nearest d.value = unsigned m e :=
  nearest_of_abs (value_pos h hm hd) h (by rw [← hd, toFloat_eq, ofRat])

/-- A natural number is read as a whole float. -/
theorem isWhole_of_value (h : magnitude? x = some (m, e)) (hm : 0 < m) (hd : d.toFloat = x.abs)
    (hn : d.value = n) : isWhole x := by
  have hpos := value_pos h hm hd
  have hnearest := nearest_value h hm hd
  rw [hn] at hpos hnearest
  obtain ⟨m', e', hnearest', hwhole⟩ := nearest_natCast (n := n) (by exact_mod_cast hpos)
  rw [hnearest] at hnearest'
  obtain ⟨rfl, rfl⟩ := unsigned_inj hm hnearest'
  exact (isWhole_iff h).2 hwhole

/-! ## Exact values -/

theorem ratio_pos (m : ℕ) (e k : ℤ) : 0 < (ratio m e k).2 := by
  have : 0 < Nat.pow 10 k.toNat := Nat.pow_pos (by norm_num)
  simp only [ratio, Nat.shiftLeft_eq]
  positivity

theorem ratio_eq (m : ℕ) (e k : ℤ) :
    ((ratio m e k).1 : ℚ) / (ratio m e k).2 = m * 2 ^ e / 10 ^ k := by
  have hsplit (b : ℚ) (hb : b ≠ 0) (i : ℤ) : b ^ i.toNat / b ^ (-i).toNat = b ^ i := by
    rw [← zpow_natCast, ← zpow_natCast, ← zpow_sub₀ hb]
    congr 1
    omega
  rw [← hsplit 2 (by norm_num) e, ← hsplit 10 (by norm_num) k]
  simp only [ratio, Nat.shiftLeft_eq, Nat.pow_eq]
  push_cast
  field_simp

theorem ratio_of_natCast (h : (m * 2 ^ e / 10 ^ k : ℚ) = n) :
    (ratio m e k).1 = n * (ratio m e k).2 := by
  have hpos := ratio_pos m e k
  have hratio := ratio_eq m e k
  rw [h, div_eq_iff (by positivity)] at hratio
  exact_mod_cast hratio

theorem exact_value (m : ℕ) (e : ℤ) : (exact m e).value = m * 2 ^ e := by
  unfold exact value
  split
  · next h =>
    lift e to ℕ using h
    simp [Nat.shiftLeft_eq]
  · next h =>
    obtain ⟨i, rfl⟩ : ∃ i : ℕ, e = -i := ⟨(-e).toNat, by omega⟩
    have hten : (10 : ℚ) ^ i = 5 ^ i * 2 ^ i := by rw [← mul_pow]; norm_num
    simp only [neg_neg, Int.toNat_natCast, zpow_neg, zpow_natCast, hten, Nat.pow_eq]
    push_cast
    field_simp

theorem value_of_exponent (h : 0 ≤ d.exponent) :
    d.value = (d.digits * 10 ^ d.exponent.toNat : ℕ) := by
  unfold value
  push_cast
  rw [← zpow_natCast, Int.toNat_of_nonneg h]

/-! ## The shortest decimal -/

theorem onGrid_some (h : onGrid x m e k = some d) : d.toFloat = x ∧ d.exponent = k := by
  unfold onGrid at h
  dsimp only at h
  split_ifs at h with hlow hboth hhigh <;> cases h
  · exact ⟨hboth.1, rfl⟩
  · exact ⟨hlow, rfl⟩
  · exact ⟨hhigh, rfl⟩

/-- The shortest decimal is read back. -/
theorem shortest_toFloat (h : magnitude? x = some (m, e)) :
    (shortest x.abs m e).toFloat = x.abs := by
  unfold shortest
  cases hfound : (List.range 17).findSome? fun (n : ℕ) => onGrid x.abs m e (leading m e - n) with
  | none => exact toFloat_of_value h (exact_value m e)
  | some d =>
    obtain ⟨i, -, hi⟩ := List.exists_of_findSome?_eq_some hfound
    exact (onGrid_some hi).1

/-- A whole number is on the grid of the natural numbers. -/
theorem onGrid_zero (h : magnitude? x = some (m, e)) (hn : (m * 2 ^ e : ℚ) = n) :
    onGrid x.abs m e 0 ≠ none := by
  have hdiv : (ratio m e 0).1 / (ratio m e 0).2 = n := by
    rw [ratio_of_natCast (by rw [zpow_zero, div_one, hn]), Nat.mul_div_cancel _ (ratio_pos m e 0)]
  have hlow : (⟨n, 0⟩ : Decimal).toFloat = x.abs :=
    toFloat_of_value h (by rw [hn, value, zpow_zero, mul_one])
  unfold onGrid
  dsimp only
  rw [hdiv, if_pos hlow]
  split <;> simp

theorem leading_nonneg (hm : 0 < m) (hn : (m * 2 ^ e : ℚ) = n) : 0 ≤ leading m e := by
  have hnpos : 0 < n := by
    have : (0 : ℚ) < n := hn ▸ mul_pos (by exact_mod_cast hm) (zpow_pos two_pos e)
    exact_mod_cast this
  have hle : (ratio m e 0).2 ≤ (ratio m e 0).1 := by
    rw [ratio_of_natCast (by rw [zpow_zero, div_one, hn])]
    exact Nat.le_mul_of_pos_left _ hnpos
  unfold leading
  dsimp only
  rw [if_pos hle]
  have hdigits : 0 < (Nat.toDigits 10 ((ratio m e 0).1 / (ratio m e 0).2)).length :=
    List.length_pos_iff.2 Nat.toDigits_ne_nil
  omega

/-- The shortest decimal of a whole number is a natural number. -/
theorem shortest_natural (h : magnitude? x = some (m, e)) (hm : 0 < m) (hx : isWhole x) :
    ∃ n : ℕ, (shortest x.abs m e).value = n := by
  obtain ⟨n, hn⟩ := (isWhole_iff h).1 hx
  unfold shortest
  cases hfound : (List.range 17).findSome? fun (n : ℕ) => onGrid x.abs m e (leading m e - n) with
  | none => exact ⟨n, by rw [← hn]; exact exact_value m e⟩
  | some d =>
    suffices hexponent : 0 ≤ d.exponent from ⟨_, value_of_exponent hexponent⟩
    have hleading := leading_nonneg hm hn
    obtain ⟨before, i, after, hrange, hi, hbefore⟩ := List.findSome?_eq_some_iff.1 hfound
    rw [(onGrid_some hi).2]
    by_contra hneg
    -- The grid of the natural numbers comes before the one on which the decimal was found.
    obtain ⟨j, hj⟩ := Int.eq_ofNat_of_zero_le hleading
    have hi17 : i < 17 := List.mem_range.1 (hrange ▸ List.mem_append_right _ List.mem_cons_self)
    have hmem : j ∈ before ++ i :: after := hrange ▸ List.mem_range.2 (by omega)
    have hpairwise := List.pairwise_lt_range (n := 17)
    rw [hrange, List.pairwise_append, List.pairwise_cons] at hpairwise
    rcases List.mem_append.1 hmem with hj' | hj'
    · have hnone := hbefore j hj'
      rw [hj, sub_self] at hnone
      exact onGrid_zero h hn hnone
    · rcases List.mem_cons.1 hj' with rfl | hj'
      · omega
      · have := hpairwise.2.1.1 j hj'
        omega

/-- The shortest decimal is a natural number exactly for a whole number. -/
theorem shortest_whole (h : magnitude? x = some (m, e)) (hm : 0 < m) :
    isWhole x ↔ ∃ n : ℕ, (shortest x.abs m e).value = n :=
  ⟨shortest_natural h hm, fun ⟨_, hn⟩ => isWhole_of_value h hm (shortest_toFloat h) hn⟩

/-! ## Decimal places -/

/-- A whole number is written exactly with any number of decimal places. -/
theorem atPlaces_value (h : magnitude? x = some (m, e)) (hx : isWhole x) (places : ℕ) :
    (atPlaces m e places).value = m * 2 ^ e := by
  obtain ⟨n, hn⟩ := (isWhole_iff h).1 hx
  have hpos := ratio_pos m e (-places)
  have hnum : (ratio m e (-places)).1 = n * 10 ^ places * (ratio m e (-places)).2 :=
    ratio_of_natCast (by rw [hn, zpow_neg, zpow_natCast, div_inv_eq_mul]; push_cast; rfl)
  unfold atPlaces value
  dsimp only
  rw [hnum, Nat.mul_div_cancel _ hpos, Nat.mul_mod_left, if_neg (by omega), hn, zpow_neg,
    zpow_natCast]
  push_cast
  field_simp

/-! ## Whole numbers below `2 ^ 63` -/

theorem shortest_two_pow :
    shortest 9223372036854775808 (2 ^ 52) 11 = ⟨9223372036854776, 3⟩ := by
  decide +kernel

/-- A whole number is written below `2 ^ 63` if it is below, and never as `2 ^ 63`. -/
theorem shortest_lt_iff (h : magnitude? x = some (m, e)) (hm : 0 < m)
    (hn : (shortest x.abs m e).value = n) :
    (n < 2 ^ 63 ↔ x.abs < 9223372036854775808) ∧ n ≠ 2 ^ 63 := by
  have hpos := value_pos h hm (shortest_toFloat h)
  have hnearest := nearest_value h hm (shortest_toFloat h)
  rw [hn] at hpos hnearest
  have hnpos : 0 < n := by exact_mod_cast hpos
  have hspecial (h' : unsigned m e = unsigned (2 ^ 52) 11) : n = 9223372036854776000 := by
    obtain ⟨rfl, rfl⟩ := unsigned_inj hm h'
    rw [abs_eq h, ← two_pow_eq, shortest_two_pow, value] at hn
    norm_num at hn
    exact_mod_cast hn.symm
  obtain ⟨hgreat, hsmall⟩ := nearest_exponent hnpos
  rw [hnearest] at hgreat hsmall
  rw [abs_lt_two_pow h, or_iff_right hm.ne']
  rcases lt_or_ge n (2 ^ 63) with hlt | hge
  · refine ⟨iff_of_true hlt ?_, hlt.ne⟩
    rcases hsmall hlt with h' | ⟨m', e', h', he'⟩
    · have := hspecial h'
      omega
    · rwa [(unsigned_inj hm h').2]
  · obtain ⟨m', e', h', he'⟩ := hgreat hge
    refine ⟨iff_of_false hge.not_gt ?_, fun heq => ?_⟩
    · rw [(unsigned_inj hm h').2]
      omega
    · have hcanonical := nearest_canonical canonical_two_pow
      have hvalue : ((2 ^ 52 : ℕ) : ℚ) * 2 ^ (11 : ℤ) = n := by
        rw [heq]
        norm_num
      rw [hvalue, hnearest] at hcanonical
      have := hspecial hcanonical
      omega

end CommandChain.Number.Decimal
