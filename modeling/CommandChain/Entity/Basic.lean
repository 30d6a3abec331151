import CommandChain.Collection.OrderedMap
import CommandChain.Identifier
import CommandChain.Space.Rotation

/-!
# Entities

What the world knows about one entity. Players are the entities with player
state; a dead player stays in the world with `alive` unset.

What it knows of players only is in `PlayerState`: game mode, level and
permissions. A permission that is not listed is enabled.
-/

namespace CommandChain

/-! ## Players -/

inductive GameMode where
  | survival
  | creative
  | adventure
  | spectator
  deriving DecidableEq, Repr, Inhabited

namespace GameMode

/-- The mode with a name, a letter or a number. -/
def parse : String → Option GameMode
  | "survival" | "s" | "0" => some survival
  | "creative" | "c" | "1" => some creative
  | "adventure" | "a" | "2" => some adventure
  | "spectator" | "6" => some spectator
  | _ => none

def name : GameMode → String
  | survival => "survival"
  | creative => "creative"
  | adventure => "adventure"
  | spectator => "spectator"

instance : ToString GameMode := ⟨name⟩

end GameMode

structure PlayerState where
  mode : GameMode
  level : Int64
  permissions : OrderedMap String Bool

namespace PlayerState

/-- A survival player of level zero. -/
def initial : PlayerState := ⟨.survival, 0, ∅⟩

instance : Inhabited PlayerState := ⟨initial⟩

def permission (p : PlayerState) (name : String) : Bool := (p.permissions.get? name).getD true

end PlayerState

/-! ## Entities -/

/-- Entity type of players. -/
def playerType : String := "minecraft:player"

structure Entity where
  /-- With namespace. -/
  entityType : String
  name : Option String
  dimension : DimensionId
  /-- Position of the feet. -/
  location : Vec3
  eyeHeight : Float
  rotation : Rotation
  tags : OrderedSet String
  families : OrderedSet String
  alive : Bool
  player : Option PlayerState

namespace Entity

/-- A living entity at the origin of the overworld. -/
def ofType (entityType : String) : Entity where
  entityType := qualify entityType
  name := none
  dimension := .overworld
  location := .zero
  eyeHeight := 1.62
  rotation := .zero
  tags := ∅
  families := ∅
  alive := true
  player := none

def ofPlayer (name : String) : Entity :=
  { ofType playerType with name := some name, player := some .initial }

def isPlayer (e : Entity) : Bool := e.player.isSome

/-- Position of the eyes. -/
def headLocation (e : Entity) : Vec3 := e.location + ⟨0, e.eyeHeight, 0⟩

/-- The entity with another player state, if it is a player. -/
def withPlayerState (e : Entity) (state : PlayerState) : Entity :=
  { e with player := e.player.map fun _ => state }

end Entity

end CommandChain
