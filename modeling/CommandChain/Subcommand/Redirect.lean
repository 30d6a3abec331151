import CommandChain.Context.Basic
import CommandChain.Coordinate.Basic
import CommandChain.Space.Axes

/-!
# Redirects

A `Redirect` turns a context into one other, changed in one respect.
-/

namespace CommandChain

inductive Redirect where
  | positioned (position : PositionExpr)
  | rotated (rotation : RotationExpr)
  | inDimension (dimension : DimensionId)
  | anchored (anchor : Anchor)
  /-- Moves to the lower corner of the block along some axes. -/
  | align (axes : Axes)
  /-- Turns to look at a position. -/
  | facing (position : PositionExpr)

namespace Redirect

variable {W : Type} [WorldView W]

def apply (r : Redirect) (world : W) (c : Context) : Except Error Context :=
  match r with
  | positioned position => do
    let point ← position.resolve (← c.point world) c.rotation
    return { c with position := .fixed point }
  | rotated rotation => do
    return { c with rotation := ← rotation.resolve c.rotation }
  | inDimension dimension =>
    if (WorldView.dimensions world).contains dimension then do
      return { c with position := .fixed (← c.point world), dimension }
    else .error (Fault.unknownDimension dimension.id)
  | anchored anchor => .ok { c with anchor }
  | align axes => do
    return { c with position := .fixed (axes.floor (← c.point world)) }
  | facing position => do
    let here ← c.point world
    return { c with rotation := here.lookAt (← position.resolve here c.rotation) }

protected def toString : Redirect → String
  | positioned position => "positioned " ++ toString position
  | rotated rotation => "rotated " ++ toString rotation
  | inDimension dimension => "in " ++ toString dimension
  | anchored anchor => "anchored " ++ toString anchor
  | align axes => "align " ++ toString axes
  | facing position => "facing " ++ toString position

instance : ToString Redirect := ⟨Redirect.toString⟩

end Redirect

end CommandChain
