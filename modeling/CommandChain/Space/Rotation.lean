import CommandChain.Space.Vec3

/-!
# Rotations

Yaw 0 looks south and grows clockwise seen from above; pitch is positive looking
down; both are in degrees. `Rotation.of` brings any two numbers into range, and
`localFrame` gives the axes that local coordinates count along.
-/

namespace CommandChain

/-- Yaw and pitch in degrees. -/
structure Rotation where
  yaw : Float
  pitch : Float
  deriving BEq, Repr

/-- Unit axes of a view. -/
structure LocalFrame where
  forward : Vec3
  up : Vec3
  left : Vec3
  deriving BEq, Repr

/-- Offsets a point along the axes of a view. -/
def LocalFrame.offset (f : LocalFrame) (origin : Vec3) (left up forward : Float) : Vec3 :=
  origin + f.left * left + f.up * up + f.forward * forward

namespace Rotation

def pi : Float := 3.141592653589793

def toDegrees (x : Float) : Float := x * (180.0 / pi)

def toRadians (x : Float) : Float := x * (pi / 180.0)

/-- The rotation with yaw wrapped into a turn and pitch clamped. A yaw that is
not finite and a pitch that is NaN count as zero. -/
def of (yaw pitch : Float) : Rotation :=
  let yaw := if yaw.isFinite then yaw else 0
  let pitch := if pitch.isNaN then 0 else pitch
  ⟨Number.wrap (yaw + 180) 360 - 180, Number.clamp pitch (-90) 90⟩

def zero : Rotation := ⟨0, 0⟩

instance : Inhabited Rotation := ⟨zero⟩

/-- Yaw for 0, pitch for every other index. -/
def component (r : Rotation) : Nat → Float
  | 0 => r.yaw
  | _ => r.pitch

def localFrame (r : Rotation) : LocalFrame :=
  let yaw := toRadians (r.yaw + 90)
  let pitch := toRadians (-r.pitch)
  let upPitch := toRadians (-r.pitch + 90)
  let forward : Vec3 := ⟨yaw.cos * pitch.cos, pitch.sin, yaw.sin * pitch.cos⟩
  let up : Vec3 := ⟨yaw.cos * upPitch.cos, upPitch.sin, yaw.sin * upPitch.cos⟩
  ⟨forward, up, -forward.cross up⟩

protected def toString (r : Rotation) : String := Number.text r.yaw ++ " " ++ Number.text r.pitch

instance : ToString Rotation := ⟨Rotation.toString⟩

end Rotation

/-- The rotation that looks from one point to another. -/
def Vec3.lookAt (a target : Vec3) : Rotation :=
  let d := target - a
  let yaw := Rotation.toDegrees (Float.atan2 d.z d.x) - 90
  let pitch := -Rotation.toDegrees (Float.atan2 d.y (Number.hypot d.x d.z))
  .of yaw pitch

end CommandChain
