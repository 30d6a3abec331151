/-!
# Exact arithmetic on floats

A finite `Float` is `± m · 2 ^ e` with a natural mantissa `m`. The operations
here compute on that form in exact integers and round at most once: `floor`,
`remainder` (the exact remainder with the dividend's sign), `wrap` (the
remainder brought into the range of a turn) and `hypot`. `rank` is the place of
a float in the total order of floats.
-/

namespace CommandChain.Number

open Float.Model

/-- The nearest float to `± m · 2 ^ e`, ties to the even mantissa. -/
def ofDyadic (sign : UnpackedFloat.Sign) (m : Nat) (e : Int) : Float :=
  .ofModel (.pack (UnpackedFloat.normalize .binary64 (sign.apply m) e sign))

/-- Mantissa and exponent of the absolute value; `none` for infinities and NaN. -/
def magnitude? (x : Float) : Option (Nat × Int) :=
  match x.toModel.unpack with
  | .finite _ m e _ => some (m, e)
  | .zero _ => some (0, 0)
  | _ => none

def isNegative (x : Float) : Bool := 1 <<< 63 ≤ x.toBits.toNat

def signOf (x : Float) : UnpackedFloat.Sign := if isNegative x then .negative else .positive

/-- Two magnitudes written with one exponent. -/
def align (a b : Nat × Int) : Nat × Nat × Int :=
  let e := min a.2 b.2
  (a.1 <<< (a.2 - e).toNat, b.1 <<< (b.2 - e).toNat, e)

/-- The greatest whole number not above `x`. -/
def floor (x : Float) : Float :=
  match x.toModel.unpack with
  | .finite sign m e _ =>
    if 0 ≤ e then x else Float.ofInt (sign.apply m / (1 <<< (-e).toNat : Nat))
  | _ => x

/-- A finite number without a fractional part. -/
def isWhole (x : Float) : Bool :=
  match magnitude? x with
  | some (m, e) => decide (0 ≤ e) || m % (1 <<< (-e).toNat) == 0
  | none => false

/-- `x - n · y` for the whole `n` nearest to `x / y` on the side of zero. -/
def remainder (x y : Float) : Float :=
  match magnitude? x, magnitude? y with
  | some a, some b =>
    if b.1 = 0 then 0.0 / 0.0
    else
      let (p, q, e) := align a b
      ofDyadic (signOf x) (p % q) e
  | some _, none => if y.isNaN then y else x
  | none, _ => 0.0 / 0.0

/-- The remainder in `[0, y]`; it reaches `y` only by rounding. -/
def wrap (x y : Float) : Float :=
  let r := remainder x y
  if r < 0 then r + y.abs else r

/-- The nearest float to the square root of `x² + y²`. -/
def hypot (x y : Float) : Float :=
  match magnitude? x, magnitude? y with
  | some a, some b =>
    let (p, q, e) := align a b
    let square := p * p + q * q
    if h : square = 0 then 0
    else .ofModel (.pack (UnpackedFloat.sqrt .binary64
      (.finite .positive square (2 * e) (Nat.pos_of_ne_zero h))))
  | _, _ => if x.isInf || y.isInf then 1.0 / 0.0 else 0.0 / 0.0

/-- Place in the total order `-∞ < … < -0 < 0 < … < ∞ < NaN`. -/
def rank (x : Float) : Int :=
  let bits := x.toBits.toNat
  if bits < 1 <<< 63 then bits else -(bits - 1 <<< 63 : Nat) - 1

/-- The smaller number, or the other one if one is NaN. -/
def lesser (a b : Float) : Float :=
  if a.isNaN then b else if b.isNaN then a else if b < a then b else a

/-- The greater number, or the other one if one is NaN. -/
def greater (a b : Float) : Float :=
  if a.isNaN then b else if b.isNaN then a else if a < b then b else a

/-- `x` brought between `low` and `high`. -/
def clamp (x low high : Float) : Float :=
  if x < low then low else if high < x then high else x

end CommandChain.Number
