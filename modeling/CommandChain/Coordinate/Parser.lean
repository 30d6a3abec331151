import CommandChain.Coordinate.Basic
import CommandChain.Scanner.Token

/-!
# Reading coordinates

Components are separated by blanks, which may be left out before `~` and `^`.
A mark stands alone or directly before its number.
-/

namespace CommandChain

namespace Coord

def lexicon : Lexicon where
  whitespace := [' ', '\t']
  quotes := []
  trueWords := []
  falseWords := []
  symbols := []

/-- An absolute component; a whole one is moved to the middle of its block when
`centered`. -/
def absoluteValue (centered : Bool) : Scan Float := do
  let n ← Scan.number
  return if centered && n.integer.isSome then n.value + 0.5 else n.value

/-- Fails unless a component may end at the cursor. -/
def ending : Scan Unit := do
  match ← Scan.peek false with
  | none | some '~' | some '^' => return
  | some c =>
    if !(← get).isBlank c then
      Scan.fail ("unexpected `" ++ c.toString ++ "` in coordinate")

/-- One component. -/
def scan (centered : Bool) : Scan Coord := do
  let coord ←
    match ← Scan.peek true with
    | none => Scan.fail "expected coordinate"
    | some '~' => do
      let _ ← Scan.next false
      relative <$> Scan.numberOrZero
    | some '^' => do
      let _ ← Scan.next false
      localAxis <$> Scan.numberOrZero
    | some _ => absolute <$> absoluteValue centered
  ending
  return coord

end Coord

namespace PositionExpr

def scan (centered : Bool) : Scan PositionExpr := do
  let x ← Coord.scan centered
  let y ← Coord.scan false
  let z ← Coord.scan centered
  Scan.expectEnd
  return ⟨x, y, z⟩

def parse (text : String) : Except Error PositionExpr := (scan false).run Coord.lexicon text

/-- As `parse`, with whole absolute `x` and `z` moved to the middle of their block. -/
def parseCentered (text : String) : Except Error PositionExpr :=
  (scan true).run Coord.lexicon text

end PositionExpr

namespace RotationExpr

def scan : Scan RotationExpr := do
  let yaw ← Coord.scan false
  let pitch ← Coord.scan false
  Scan.expectEnd
  return ⟨yaw, pitch⟩

def parse (text : String) : Except Error RotationExpr := scan.run Coord.lexicon text

end RotationExpr

end CommandChain
