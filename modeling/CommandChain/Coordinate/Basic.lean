import CommandChain.Error
import CommandChain.Space.Rotation

/-!
# Coordinate notation

A component of a position or rotation is absolute (`12.5`), relative to the
current value (`~2`) or local (`^1`), counted along the axes of the current
view. Local components make sense only as a whole position: `resolve` fails on
a position that mixes them with others, and on a rotation that has any.
-/

namespace CommandChain

/-- What a component is counted from. -/
inductive CoordKind where
  | absolute
  | relative
  | localAxis
  deriving DecidableEq, Repr

/-- One component of a position or rotation. -/
structure Coord where
  kind : CoordKind
  value : Float
  deriving BEq, Repr

namespace Coord

def absolute (value : Float) : Coord := ⟨.absolute, value⟩

def relative (value : Float) : Coord := ⟨.relative, value⟩

def localAxis (value : Float) : Coord := ⟨.localAxis, value⟩

def isLocal (c : Coord) : Bool := c.kind = .localAxis

/-- The component's value where the current one is `current`. -/
def against (c : Coord) (current : Float) : Float :=
  match c.kind with
  | .absolute => c.value
  | .relative | .localAxis => current + c.value

/-- `mark`, and the value unless it is zero. -/
def marked (mark : String) (value : Float) : String :=
  if value == 0 then mark else mark ++ Number.text value

protected def toString (c : Coord) : String :=
  match c.kind with
  | .absolute => Number.text c.value
  | .relative => marked "~" c.value
  | .localAxis => marked "^" c.value

instance : ToString Coord := ⟨Coord.toString⟩

end Coord

/-- A position such as `~ ~1 ~` or `^ ^ ^2`. -/
structure PositionExpr where
  x : Coord
  y : Coord
  z : Coord
  deriving BEq, Repr

namespace PositionExpr

/-- The current position. -/
def here : PositionExpr := ⟨.relative 0, .relative 0, .relative 0⟩

/-- The current position in local notation. -/
def localOrigin : PositionExpr := ⟨.localAxis 0, .localAxis 0, .localAxis 0⟩

def coords (p : PositionExpr) : List Coord := [p.x, p.y, p.z]

def isLocal (p : PositionExpr) : Bool := p.coords.all Coord.isLocal

protected def toString (p : PositionExpr) : String :=
  toString p.x ++ " " ++ toString p.y ++ " " ++ toString p.z

instance : ToString PositionExpr := ⟨PositionExpr.toString⟩

/-- The point named from `origin` with the view `rotation`. A local triple
counts to the left, up and forward. -/
def resolve (p : PositionExpr) (origin : Vec3) (rotation : Rotation) : Except Error Vec3 :=
  if p.coords.all (!·.isLocal) then
    .ok ⟨p.x.against origin.x, p.y.against origin.y, p.z.against origin.z⟩
  else if p.isLocal then
    .ok (rotation.localFrame.offset origin p.x.value p.y.value p.z.value)
  else
    .error (Fault.invalidNotation
      ("cannot mix local and world coordinates in `" ++ toString p ++ "`"))

end PositionExpr

/-- A rotation such as `~90 0`. -/
structure RotationExpr where
  yaw : Coord
  pitch : Coord
  deriving BEq, Repr

namespace RotationExpr

protected def toString (r : RotationExpr) : String := toString r.yaw ++ " " ++ toString r.pitch

instance : ToString RotationExpr := ⟨RotationExpr.toString⟩

def coords (r : RotationExpr) : List Coord := [r.yaw, r.pitch]

/-- The rotation named from `current`. -/
def resolve (r : RotationExpr) (current : Rotation) : Except Error Rotation :=
  if r.coords.any Coord.isLocal then
    .error (Fault.invalidNotation
      ("rotations cannot use local coordinates: `" ++ toString r ++ "`"))
  else .ok (.of (r.yaw.against current.yaw) (r.pitch.against current.pitch))

end RotationExpr

end CommandChain
