import CommandChain.Error
import CommandChain.Space.Vec3
import CommandChain.Text.Blank

/-!
# Axes

`Axes` is a set of axes, written by their letters: `xz`.
-/

namespace CommandChain

structure Axes where
  x : Bool
  y : Bool
  z : Bool
  deriving DecidableEq, Repr

namespace Axes

def empty : Axes := ⟨false, false, false⟩

def isEmpty (a : Axes) : Bool := !(a.x || a.y || a.z)

/-- Axis 0, 1 or 2 is among them. -/
def contains (a : Axes) : Nat → Bool
  | 0 => a.x
  | 1 => a.y
  | 2 => a.z
  | _ => false

/-- The axes with one more. -/
def add (a : Axes) (axis : Nat) : Axes :=
  match axis with
  | 0 => { a with x := true }
  | 1 => { a with y := true }
  | 2 => { a with z := true }
  | _ => a

/-- The axis with that letter. -/
def index? : Char → Option Nat
  | 'x' => some 0
  | 'y' => some 1
  | 'z' => some 2
  | _ => none

/-- The axes with the one of a letter, or what is wrong with the letter. -/
def addLetter (a : Axes) (c : Char) : Except String Axes :=
  match index? c with
  | none => .error ("unknown axis `" ++ c.toString ++ "`")
  | some axis =>
    if a.contains axis then .error ("axis `" ++ c.toString ++ "` repeated") else .ok (a.add axis)

/-- The axes of some letters, each at most once. -/
def ofLetters (letters : List Char) : Except String Axes := do
  let axes ← letters.foldlM addLetter empty
  if axes.isEmpty then .error "expected axes" else .ok axes

/-- The letters of some axes, with blanks around them. An error stands at the
first letter. -/
def parse (text : String) : Except Error Axes :=
  let letters := Text.trim text.toList
  match ofLetters letters with
  | .ok axes => .ok axes
  | .error message => .error (Fault.parse message 0 "" (String.ofList letters))

/-- The point with the coordinates along the axes rounded down. -/
def floor (a : Axes) (point : Vec3) : Vec3 :=
  ⟨if a.x then Number.floor point.x else point.x, if a.y then Number.floor point.y else point.y,
    if a.z then Number.floor point.z else point.z⟩

protected def toString (a : Axes) : String :=
  (if a.x then "x" else "") ++ (if a.y then "y" else "") ++ (if a.z then "z" else "")

instance : ToString Axes := ⟨Axes.toString⟩

end Axes

end CommandChain
