import CommandChain.Number.Decimal

/-!
# Points and blocks

`Vec3` is a point or a direction: `x` east, `y` up, `z` south. `BlockPos` is the
integer position of a block. `Vec3.remoteness` orders points by their distance
from a centre.
-/

namespace CommandChain

structure Vec3 where
  x : Float
  y : Float
  z : Float
  deriving BEq, Repr, Inhabited

namespace Vec3

def zero : Vec3 := ⟨0, 0, 0⟩

instance : Add Vec3 := ⟨fun a b => ⟨a.x + b.x, a.y + b.y, a.z + b.z⟩⟩

instance : Sub Vec3 := ⟨fun a b => ⟨a.x - b.x, a.y - b.y, a.z - b.z⟩⟩

instance : Neg Vec3 := ⟨fun a => ⟨-a.x, -a.y, -a.z⟩⟩

instance : HMul Vec3 Float Vec3 := ⟨fun a n => ⟨a.x * n, a.y * n, a.z * n⟩⟩

/-- The component along axis 0, 1 or (from 2 on) `z`. -/
def axis (a : Vec3) : Nat → Float
  | 0 => a.x
  | 1 => a.y
  | _ => a.z

def withAxis (a : Vec3) (axis : Nat) (value : Float) : Vec3 :=
  match axis with
  | 0 => { a with x := value }
  | 1 => { a with y := value }
  | _ => { a with z := value }

def dot (a b : Vec3) : Float := a.x * b.x + a.y * b.y + a.z * b.z

def cross (a b : Vec3) : Vec3 :=
  ⟨a.y * b.z - a.z * b.y, a.z * b.x - a.x * b.z, a.x * b.y - a.y * b.x⟩

def length (a : Vec3) : Float := (a.dot a).sqrt

def distance (a b : Vec3) : Float := (a - b).length

def floor (a : Vec3) : Vec3 := ⟨Number.floor a.x, Number.floor a.y, Number.floor a.z⟩

/-- `a - b` has no value although neither coordinate is NaN: both lie at the
same infinity. -/
def unrelated (a b : Float) : Bool := (a - b).isNaN && !a.isNaN && !b.isNaN

/-- Place of `a` in the order of distance from `centre`. Points for which a
coordinate difference has no value come first, points with a NaN coordinate
last. -/
def remoteness (centre a : Vec3) : Int :=
  let pairs := [(a.x, centre.x), (a.y, centre.y), (a.z, centre.z)]
  match pairs.find? fun (p, q) => (p - q).isNaN with
  | some (p, q) => if unrelated p q then -Number.rank (0.0 / 0.0) - 1 else Number.rank (0.0 / 0.0)
  | none => Number.rank (a.distance centre)

protected def toString (a : Vec3) : String :=
  Number.text a.x ++ " " ++ Number.text a.y ++ " " ++ Number.text a.z

instance : ToString Vec3 := ⟨Vec3.toString⟩

end Vec3

/-- Integer coordinates of a block. -/
structure BlockPos where
  x : Int32
  y : Int32
  z : Int32
  deriving DecidableEq, Repr, Inhabited

namespace BlockPos

instance : Ord BlockPos :=
  ⟨compareLex (compareOn BlockPos.x) (compareLex (compareOn BlockPos.y) (compareOn BlockPos.z))⟩

instance : Std.TransOrd BlockPos :=
  inferInstanceAs (Std.TransCmp
    (compareLex (compareOn BlockPos.x) (compareLex (compareOn BlockPos.y) (compareOn BlockPos.z))))

instance : Std.LawfulEqOrd BlockPos where
  compare_self := Std.ReflOrd.compare_self
  eq_of_compare {a b} h := by
    have h : (compare a.x b.x).then ((compare a.y b.y).then (compare a.z b.z)) = .eq := h
    simp only [Ordering.then_eq_eq, Std.LawfulEqOrd.compare_eq_iff_eq] at h
    cases a; cases b
    simp_all

/-- The block that contains a point, clamped to the range of coordinates. -/
def containing (a : Vec3) : BlockPos :=
  ⟨(Number.floor a.x).toInt32, (Number.floor a.y).toInt32, (Number.floor a.z).toInt32⟩

/-- Centre of the bottom face. -/
def bottomCenter (p : BlockPos) : Vec3 :=
  ⟨Float.ofInt p.x.toInt + 0.5, Float.ofInt p.y.toInt, Float.ofInt p.z.toInt + 0.5⟩

protected def toString (p : BlockPos) : String :=
  toString p.x ++ " " ++ toString p.y ++ " " ++ toString p.z

instance : ToString BlockPos := ⟨BlockPos.toString⟩

end BlockPos

end CommandChain
