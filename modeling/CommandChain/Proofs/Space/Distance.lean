import CommandChain.Proofs.Number.Order
import CommandChain.Space.Vec3

/-!
# Distances and their order

A distance is a NaN if the difference of some coordinates is one (`isNaN_distance_iff`), and
otherwise a number without a sign. In the total order of floats the sign of the NaN decides:
the difference of two equal infinities is a negative NaN, before all numbers, and a NaN
coordinate is positive, behind them (`nanSign`). Numbers are ranked by their bits, that is by
`<` (`nearer_iff_lt`).

`Vec3.remoteness` is a key for this order (`remoteness_lt_iff`).
-/

namespace CommandChain

open Number Float.Model

namespace Vec3

/-- The sign of a difference that is a NaN. -/
def differenceSign (p q : Float) : ℤ := if p.isNaN ∨ q.isNaN then 1 else -1

/-- The sign of the NaN that the distance from the centre is, or zero if it is a number. The
first axis on which the difference is a NaN decides. -/
def nanSign (centre a : Vec3) : ℤ :=
  if (a.x - centre.x).isNaN then differenceSign a.x centre.x
  else if (a.y - centre.y).isNaN then differenceSign a.y centre.y
  else if (a.z - centre.z).isNaN then differenceSign a.z centre.z
  else 0

/-- `a` is strictly nearer to the centre than `b`, by the total order of floats. -/
def Nearer (centre a b : Vec3) : Prop :=
  centre.nanSign a < centre.nanSign b ∨ centre.nanSign a = centre.nanSign b ∧
    rank (a.distance centre) < rank (b.distance centre)

end Vec3

/-! ## Sums of squares -/

section

variable {x y : Float}

theorem eq_nan_iff : x = .nan ↔ x.isNaN := by
  rw [Float.isNaN_eq_decide_eq_nan, decide_eq_true_iff]

theorem nan_add (y : Float) : .nan + y = .nan := rfl

theorem add_nan (x : Float) : x + .nan = .nan := by
  change Float.ofModel (.pack (UnpackedFloat.add .binary64 x.toModel.unpack .notANumber)) = _
  cases x.toModel.unpack <;> rfl

theorem plus_mul_self (h : ¬ x.isNaN) : Plus (x * x).toModel.unpack :=
  (Plus.mul_self (Bool.eq_false_iff.2 h)).repack

theorem plus_add (hx : Plus x.toModel.unpack) (hy : Plus y.toModel.unpack) :
    Plus (x + y).toModel.unpack :=
  (hx.add hy).repack

theorem plus_sqrt (h : Plus x.toModel.unpack) : Plus x.sqrt.toModel.unpack := h.sqrt.repack

end

namespace Vec3

variable {centre a b : Vec3}

theorem distance_eq (a centre : Vec3) : a.distance centre =
    ((a.x - centre.x) * (a.x - centre.x) + (a.y - centre.y) * (a.y - centre.y) +
      (a.z - centre.z) * (a.z - centre.z)).sqrt := rfl

theorem differenceSign_ne_zero (p q : Float) : differenceSign p q ≠ 0 := by
  unfold differenceSign
  split <;> decide

/-- Without a NaN on some axis the distance is a number. -/
theorem plus_distance (h : centre.nanSign a = 0) : Plus (a.distance centre).toModel.unpack := by
  unfold nanSign at h
  split_ifs at h with hx hy hz
  · exact (differenceSign_ne_zero _ _ h).elim
  · exact (differenceSign_ne_zero _ _ h).elim
  · exact (differenceSign_ne_zero _ _ h).elim
  · rw [distance_eq]
    exact plus_sqrt (plus_add (plus_add (plus_mul_self hx) (plus_mul_self hy)) (plus_mul_self hz))

/-- With one it is a NaN. -/
theorem distance_eq_nan (h : centre.nanSign a ≠ 0) : a.distance centre = .nan := by
  have hsquare : (.nan * .nan : Float) = .nan := by decide +kernel
  have hsqrt : Float.nan.sqrt = .nan := by decide +kernel
  unfold nanSign at h
  rw [distance_eq]
  split_ifs at h with hx hy hz
  · rw [eq_nan_iff.2 hx, hsquare, nan_add, nan_add, hsqrt]
  · rw [eq_nan_iff.2 hy, hsquare, add_nan, nan_add, hsqrt]
  · rw [eq_nan_iff.2 hz, hsquare, add_nan, hsqrt]
  · exact (h rfl).elim

theorem isNaN_distance_iff : (a.distance centre).isNaN ↔ centre.nanSign a ≠ 0 := by
  constructor
  · intro hnan hzero
    have hnumber : (a.distance centre).isNaN = false := (plus_distance hzero).not_isNaN
    rw [hnumber] at hnan
    cases hnan
  · exact fun h => eq_nan_iff.1 (distance_eq_nan h)

/-- Numbers are compared by `<`. -/
theorem nearer_iff_lt (ha : centre.nanSign a = 0) (hb : centre.nanSign b = 0) :
    centre.Nearer a b ↔ a.distance centre < b.distance centre := by
  rw [Plus.lt_iff (plus_distance ha) (plus_distance hb), Nearer, ha, hb]
  simp

/-! ## The key -/

theorem unrelated_iff {p q : Float} (h : (p - q).isNaN) :
    unrelated p q ↔ ¬ (p.isNaN ∨ q.isNaN) := by
  rw [unrelated, h]
  cases p.isNaN <;> cases q.isNaN <;> decide

/-- The key of a NaN from some axis. -/
theorem key_of_isNaN {p q : Float} (h : (p - q).isNaN) (n : ℤ) :
    (if unrelated p q then -rank .nan - 1 else rank .nan) =
      if differenceSign p q = 0 then n
      else if differenceSign p q = 1 then rank .nan
      else -rank .nan - 1 := by
  rw [if_neg (differenceSign_ne_zero p q)]
  by_cases hpq : p.isNaN ∨ q.isNaN
  · rw [if_neg fun hu => (unrelated_iff h).1 hu hpq, differenceSign, if_pos hpq, if_pos rfl]
  · rw [if_pos ((unrelated_iff h).2 hpq), differenceSign, if_neg hpq, if_neg (by decide)]

/-- The key is the rank of the distance, with a NaN of its own on either side. -/
theorem remoteness_eq (centre a : Vec3) : centre.remoteness a =
    if centre.nanSign a = 0 then rank (a.distance centre)
    else if centre.nanSign a = 1 then rank .nan
    else -rank .nan - 1 := by
  have hnan : (0.0 / 0.0 : Float) = .nan := by decide +kernel
  unfold remoteness nanSign
  rw [hnan]
  by_cases hx : (a.x - centre.x).isNaN
  · simpa only [List.find?_cons, hx, if_true] using key_of_isNaN hx _
  by_cases hy : (a.y - centre.y).isNaN
  · simpa only [List.find?_cons, hx, hy, if_true, if_false, Bool.false_eq_true]
      using key_of_isNaN hy _
  by_cases hz : (a.z - centre.z).isNaN
  · simpa only [List.find?_cons, hx, hy, hz, if_true, if_false, Bool.false_eq_true]
      using key_of_isNaN hz _
  · simp only [List.find?_cons, List.find?_nil, hx, hy, hz, if_true, if_false, Bool.false_eq_true]

theorem nanSign_cases (centre a : Vec3) :
    centre.nanSign a = -1 ∨ centre.nanSign a = 0 ∨ centre.nanSign a = 1 := by
  unfold nanSign differenceSign
  split_ifs <;> simp

/-- Negative NaN, numbers and positive NaN, in this order. -/
theorem remoteness_cases (centre a : Vec3) :
    (centre.nanSign a = -1 ∧ rank (a.distance centre) = rank .nan ∧
        centre.remoteness a = -rank .nan - 1) ∨
      (centre.nanSign a = 0 ∧ (0 ≤ rank (a.distance centre) ∧
        rank (a.distance centre) < rank .nan) ∧ centre.remoteness a = rank (a.distance centre)) ∨
      (centre.nanSign a = 1 ∧ rank (a.distance centre) = rank .nan ∧
        centre.remoteness a = rank .nan) := by
  rw [remoteness_eq]
  rcases nanSign_cases centre a with h | h | h
  · rw [distance_eq_nan (by omega)]
    exact .inl ⟨h, rfl, by rw [h, if_neg (by decide), if_neg (by decide)]⟩
  · exact .inr (.inl ⟨h, Plus.rank_bounds (plus_distance h), if_pos h⟩)
  · rw [distance_eq_nan (by omega)]
    exact .inr (.inr ⟨h, rfl, by rw [h, if_neg (by decide), if_pos rfl]⟩)

theorem rank_nan_nonneg : 0 ≤ rank .nan := by decide +kernel

theorem remoteness_lt_iff : centre.remoteness a < centre.remoteness b ↔ centre.Nearer a b := by
  have hnan := rank_nan_nonneg
  unfold Nearer
  rcases remoteness_cases centre a with ha | ha | ha <;>
    rcases remoteness_cases centre b with hb | hb | hb <;> omega

theorem remoteness_eq_iff : centre.remoteness a = centre.remoteness b ↔
    centre.nanSign a = centre.nanSign b ∧ rank (a.distance centre) = rank (b.distance centre) := by
  have hnan := rank_nan_nonneg
  rcases remoteness_cases centre a with ha | ha | ha <;>
    rcases remoteness_cases centre b with hb | hb | hb <;> omega

end Vec3

end CommandChain
