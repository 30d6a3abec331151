import CommandChain.Number.Decimal

/-!
# Written numbers

A `Numeral` is a number as it stands in a text: an optional sign, then digits
with an optional point and digits, or a point and digits. `Numeral.read` finds
the longest one that a text begins with. A point without a digit after it does
not belong to the number, so `1..5` begins with `1`.
-/

namespace CommandChain

/-- A number as written. -/
structure Numeral where
  sign : Option Char
  whole : List Char
  /-- The digits after the point, if there is one. -/
  fraction : Option (List Char)
  deriving DecidableEq, Repr

namespace Numeral

/-- The number's text. -/
def chars (n : Numeral) : List Char :=
  n.sign.toList ++ n.whole ++
    match n.fraction with
    | none => []
    | some digits => '.' :: digits

def readSign : List Char → Option Char × List Char
  | '-' :: rest => (some '-', rest)
  | '+' :: rest => (some '+', rest)
  | rest => (none, rest)

/-- A point and the digits after it. -/
def readFraction : List Char → Option (List Char)
  | '.' :: rest =>
    match rest.takeWhile Char.isDigit with
    | [] => none
    | digits => some digits
  | _ => none

/-- The longest number at the start of a text. -/
def read (s : List Char) : Option Numeral :=
  let (sign, body) := readSign s
  let whole := body.takeWhile Char.isDigit
  let fraction := readFraction (body.dropWhile Char.isDigit)
  if whole.isEmpty && fraction.isNone then none else some ⟨sign, whole, fraction⟩

/-- The nearest float. -/
def toFloat (n : Numeral) : Float :=
  let x := (Number.Decimal.ofDigits n.whole (n.fraction.getD [])).toFloat
  if n.sign = some '-' then -x else x

/-- The value of the digits before the point. -/
def toInt (n : Numeral) : Int :=
  let i := Nat.ofDigitChars 10 n.whole 0
  if n.sign = some '-' then -i else i

end Numeral

/-- A number read from a text. -/
structure Number where
  value : Float
  /-- The exact value of a number written without a point. -/
  integer : Option Int64
  deriving Repr

end CommandChain
