import CommandChain.Scanner.Token
import CommandChain.World.View

/-!
# Contexts

A `Context` is what one branch of a chain runs with: who executes, where, and
facing which way. `Context.root` makes the first context of a chain, and every
other descends from it by subcommands, so it keeps the `Origin` of its root.

`Settings` are what a `Runner` is set up with: the seed of its random source and
the words of the commands it renders.
-/

namespace CommandChain

/-! ## Settings -/

structure Settings where
  /-- Seed of the random source for random selectors. -/
  seed : UInt64
  /-- Start of the transient tags that mark a bound entity. -/
  markerStem : String
  /-- First word of rendered commands. -/
  commandWord : String
  /-- Dimension of contexts that the server starts. -/
  defaultDimension : DimensionId
  deriving DecidableEq, Repr

namespace Settings

def standard : Settings where
  seed := 0x5EED
  markerStem := "voxecute_marker_"
  commandWord := "execute"
  defaultDimension := .overworld

instance : Inhabited Settings := ⟨standard⟩

/-- The standard settings with another seed. -/
def seeded (seed : UInt64) : Settings := { standard with seed }

end Settings

/-! ## Anchors -/

/-- A point of an entity. -/
inductive Anchor where
  | feet
  | eyes
  deriving DecidableEq, Repr, Inhabited

namespace Anchor

def name : Anchor → String
  | feet => "feet"
  | eyes => "eyes"

instance : ToString Anchor := ⟨name⟩

def scan : Scan Anchor := do
  let anchor ←
    match ← Scan.consumeAny ["feet", "eyes"] true with
    | some "feet" => pure feet
    | some "eyes" => pure eyes
    | _ => Scan.fail "expected `feet` or `eyes`"
  Scan.expectEnd
  return anchor

def parse (text : String) : Except Error Anchor := scan.run .ascii text

end Anchor

/-- The point of an entity that an anchor names. -/
def Entity.point (e : Entity) : Anchor → Vec3
  | .feet => e.location
  | .eyes => e.headLocation

/-! ## Contexts -/

/-- Who starts a chain. -/
inductive Sender where
  | entity (id : EntityId)
  | block (dimension : DimensionId) (position : BlockPos)
  | server
  deriving DecidableEq, Repr

/-- The root that a context descends from. -/
structure Origin where
  /-- Different for any two roots. -/
  serial : Nat
  sender : Sender
  deriving DecidableEq, Repr

/-- Where a context is. -/
inductive Position where
  | fixed (point : Vec3)
  /-- Wherever the entity is when the position is read. -/
  | bound (id : EntityId)
  deriving BEq, Repr

/-- What one branch of a chain runs with. -/
structure Context where
  origin : Origin
  executor : Option EntityId
  dimension : DimensionId
  position : Position
  rotation : Rotation
  /-- The point of a bound entity that the position means. -/
  anchor : Anchor
  deriving Repr

namespace Context

variable {W : Type} [WorldView W]

def sender (c : Context) : Sender := c.origin.sender

/-- Contexts are equal if all they run with is, whichever root they descend from. -/
instance : BEq Context where
  beq a b := a.sender == b.sender && a.executor == b.executor && a.dimension == b.dimension &&
    a.position == b.position && a.rotation == b.rotation && a.anchor == b.anchor

/-- Both descend from the same root. -/
def sharesOrigin (a b : Context) : Bool := a.origin.serial == b.origin.serial

/-- The record of an entity, or `entityNotFound`. -/
def record (world : W) (id : EntityId) : Except Error Entity :=
  match WorldView.entity? world id with
  | some e => .ok e
  | none => .error (Fault.entityNotFound id)

/-- The point that the position means at present. -/
def point (c : Context) (world : W) : Except Error Vec3 :=
  match c.position with
  | .fixed point => .ok point
  | .bound id => return (← record world id).point c.anchor

/-- An unturned context at a point, without executor. -/
def atPoint (origin : Origin) (dimension : DimensionId) (point : Vec3) : Context :=
  ⟨origin, none, dimension, .fixed point, .zero, .feet⟩

/-- The first context of a chain. An entity runs as itself, bound to itself; a
block runs from its centre, and the server from the zero point of its dimension. -/
def root (world : W) (settings : Settings) (origin : Origin) : Except Error Context :=
  match origin.sender with
  | .entity id => do
    let e ← record world id
    return ⟨origin, some id, e.dimension, .bound id, e.rotation, .feet⟩
  | .block dimension position =>
    .ok (atPoint origin dimension (position.bottomCenter + ⟨0, 0.5, 0⟩))
  | .server => .ok (atPoint origin settings.defaultDimension .zero)

end Context

end CommandChain
