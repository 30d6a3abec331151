import CommandChain.Number.Dyadic

/-!
# Decimal text of floats

`Decimal` is `digits · 10 ^ exponent`. `Decimal.toFloat` reads it as the nearest
float; `Decimal.shortest` finds the fewest digits that read back.

`plain` writes a float in positional notation with those digits, `fixed` with a
given number of decimal places, a half going to the even neighbour.
-/

namespace CommandChain.Number

/-- The number `digits · 10 ^ exponent`. -/
structure Decimal where
  digits : Nat
  exponent : Int
  deriving DecidableEq, Repr

namespace Decimal

/-- The nearest float, ties to the even mantissa. -/
def toFloat (d : Decimal) : Float :=
  Float.ofScientific d.digits (d.exponent < 0) d.exponent.natAbs

/-- The number written `whole.fraction`. -/
def ofDigits (whole fraction : List Char) : Decimal :=
  ⟨Nat.ofDigitChars 10 (whole ++ fraction) 0, -fraction.length⟩

/-- `m · 2 ^ e` without rounding. -/
def exact (m : Nat) (e : Int) : Decimal :=
  if 0 ≤ e then ⟨m <<< e.toNat, 0⟩ else ⟨m * Nat.pow 5 (-e).toNat, e⟩

/-- `m · 2 ^ e / 10 ^ k` as numerator and denominator. -/
def ratio (m : Nat) (e k : Int) : Nat × Nat :=
  ((m <<< e.toNat) * Nat.pow 10 (-k).toNat, Nat.pow 10 k.toNat <<< (-e).toNat)

/-- Exponent of the leading digit of `m · 2 ^ e`. -/
def leading (m : Nat) (e : Int) : Int :=
  let (n, d) := ratio m e 0
  if d ≤ n then (Nat.toDigits 10 (n / d)).length - 1
  else -(Nat.toDigits 10 ((d + n - 1) / n - 1)).length

/-- The neighbour of `x = m · 2 ^ e` among the multiples of `10 ^ k` that reads
back as `x`: the nearer one if both do, and of two equally near the greater. -/
def onGrid (x : Float) (m : Nat) (e k : Int) : Option Decimal :=
  let (n, d) := ratio m e k
  let low : Decimal := ⟨n / d, k⟩
  let high : Decimal := ⟨n / d + 1, k⟩
  if low.toFloat = x then
    if high.toFloat = x ∧ d ≤ 2 * (n % d) then some high else some low
  else if high.toFloat = x then some high
  else none

/-- The fewest digits that read back as `x = m · 2 ^ e`. -/
def shortest (x : Float) (m : Nat) (e : Int) : Decimal :=
  ((List.range 17).findSome? fun (n : Nat) => onGrid x m e (leading m e - n)).getD (exact m e)

/-- The multiple of `10 ^ (-places)` nearest to `m · 2 ^ e`, ties to the even one. -/
def atPlaces (m : Nat) (e : Int) (places : Nat) : Decimal :=
  let (n, d) := ratio m e (-places)
  let q := n / d
  let rest := 2 * (n % d)
  ⟨if d < rest ∨ d = rest ∧ q % 2 = 1 then q + 1 else q, -places⟩

/-- The digits before the point and the digits after it. -/
def split (d : Decimal) : List Char × List Char :=
  let digits := Nat.toDigits 10 d.digits
  let places := (-d.exponent).toNat
  let padded := List.replicate (places + 1 - digits.length) '0' ++ digits
  let cut := padded.length - places
  (padded.take cut ++ List.replicate d.exponent.toNat '0', padded.drop cut)

/-- Positional notation without zeros at the end of the fraction. -/
def positional (d : Decimal) : List Char :=
  let (whole, fraction) := d.split
  match (fraction.reverse.dropWhile (· == '0')).reverse with
  | [] => whole
  | fraction => whole ++ '.' :: fraction

end Decimal

/-- `write` applied to the magnitude of a finite number, after its sign; words
for the other floats. -/
def signed (write : Nat → Int → List Char) (x : Float) : List Char :=
  if x.isNaN then ['N', 'a', 'N']
  else
    let body :=
      match magnitude? x with
      | some (m, e) => write m e
      | none => ['i', 'n', 'f']
    if isNegative x then '-' :: body else body

/-- The fewest digits that read back, in positional notation. -/
def plain (x : Float) : List Char :=
  signed (fun m e => if m = 0 then ['0'] else (Decimal.shortest x.abs m e).positional) x

/-- `plain` as a string. -/
def text (x : Float) : String := String.ofList (plain x)

/-- The nearest number with `places` decimal places. -/
def fixed (places : Nat) (x : Float) : List Char :=
  signed (fun m e =>
    let (whole, fraction) := (Decimal.atPlaces m e places).split
    if places = 0 then whole else whole ++ '.' :: fraction) x

end CommandChain.Number
