import CommandChain.Block.Basic
import CommandChain.Effect
import CommandChain.Entity.Basic
import CommandChain.Score.Board
import CommandChain.Value.Basic

/-!
# Worlds as chains see them

A chain reads a world through `WorldView` and changes it through `Host`: it adds
and removes tags, and submits commands. A world paired with anything else is
viewed like the world alone.

An `EntityQuery` is the filter that a world applies while it gathers entities:
a conjunction of conditions on placement, identity, player state and scores. The
empty query admits every entity.
-/

namespace CommandChain

/-! ## Entity queries -/

/-- A score that must lie in a range, or outside it. -/
structure ScoreFilter where
  objective : String
  range : IntRange
  exclude : Bool
  deriving DecidableEq, Repr

structure EntityQuery where
  /-- Reference point for distance and volume. -/
  location : Vec3
  maxDistance : Option Float
  minDistance : Option Float
  /-- Extent of a box from the reference point. -/
  volume : Option Vec3
  entityType : Option String
  excludeTypes : List String
  name : Option String
  excludeNames : List String
  tags : List String
  excludeTags : List String
  families : List String
  excludeFamilies : List String
  gameMode : Option GameMode
  excludeGameModes : List GameMode
  minLevel : Option Int64
  maxLevel : Option Int64
  minPitch : Option Float
  maxPitch : Option Float
  minYaw : Option Float
  maxYaw : Option Float
  scores : List ScoreFilter

namespace EntityQuery

/-- The query without conditions. -/
def around (location : Vec3) : EntityQuery where
  location := location
  maxDistance := none
  minDistance := none
  volume := none
  entityType := none
  excludeTypes := []
  name := none
  excludeNames := []
  tags := []
  excludeTags := []
  families := []
  excludeFamilies := []
  gameMode := none
  excludeGameModes := []
  minLevel := none
  maxLevel := none
  minPitch := none
  maxPitch := none
  minYaw := none
  maxYaw := none
  scores := []

/-- The query filters by distance or volume. -/
def isSpatial (q : EntityQuery) : Bool :=
  q.maxDistance.isSome || q.minDistance.isSome || q.volume.isSome

/-- `v` lies in the blocks from `start` to `start + extent`. -/
def withinBlocks (start extent v : Float) : Bool :=
  let stop := start + extent
  let low := Number.floor (Number.lesser start stop)
  let high := Number.floor (Number.greater start stop) + 1
  low ≤ v && v < high

def inVolume (start extent v : Vec3) : Bool :=
  withinBlocks start.x extent.x v.x && withinBlocks start.y extent.y v.y &&
    withinBlocks start.z extent.z v.z

/-- No bound is passed. -/
def between (min max : Option Float) (v : Float) : Bool :=
  !min.any (v < ·) && !max.any (· < v)

def admitsPlacement (q : EntityQuery) (e : Entity) : Bool :=
  between q.minDistance q.maxDistance (e.location.distance q.location) &&
    q.volume.all (inVolume q.location · e.location) &&
    between q.minPitch q.maxPitch e.rotation.pitch && between q.minYaw q.maxYaw e.rotation.yaw

def admitsIdentity (q : EntityQuery) (e : Entity) : Bool :=
  q.entityType.all (qualify · == e.entityType) &&
    !q.excludeTypes.any (qualify · == e.entityType) &&
    q.name.all (e.name == some ·) && !q.excludeNames.any (e.name == some ·) &&
    q.tags.all e.tags.has && !q.excludeTags.any e.tags.has &&
    q.families.all e.families.has && !q.excludeFamilies.any e.families.has

/-- Some condition is on player state. -/
def asksForPlayer (q : EntityQuery) : Bool :=
  q.gameMode.isSome || !q.excludeGameModes.isEmpty || q.minLevel.isSome || q.maxLevel.isSome

def admitsPlayerState (q : EntityQuery) (p : PlayerState) : Bool :=
  q.gameMode.all (p.mode == ·) && !q.excludeGameModes.contains p.mode &&
    q.minLevel.all (· ≤ p.level) && q.maxLevel.all (p.level ≤ ·)

def admitsPlayer (q : EntityQuery) (e : Entity) : Bool :=
  !q.asksForPlayer || e.player.any q.admitsPlayerState

def admitsScores (q : EntityQuery) (holder : ScoreHolder) (board : Scoreboard) : Bool :=
  q.scores.all fun f => (board.get? f.objective holder).any (f.range.contains · != f.exclude)

/-- Every condition holds of the entity. -/
def admits (q : EntityQuery) (holder : ScoreHolder) (e : Entity) (board : Scoreboard) : Bool :=
  q.admitsPlacement e && q.admitsIdentity e && q.admitsPlayer e && q.admitsScores holder board

end EntityQuery

/-! ## Views and hosts -/

/-- What can be read from a world. -/
class WorldView (W : Type) where
  dimensions : W → List DimensionId
  /-- `none` once the entity has been removed. -/
  entity? : W → EntityId → Option Entity
  /-- The living entities in a dimension that a query admits, in id order. -/
  living : W → DimensionId → EntityQuery → List EntityId
  /-- The players in a dimension that a query admits, dead ones included. -/
  players : W → DimensionId → EntityQuery → List EntityId
  /-- `none` where nothing is loaded. -/
  block? : W → DimensionId → BlockPos → Option Block
  score? : W → String → ScoreHolder → Option Int64
  playerNamed? : W → String → Option EntityId

instance {W α : Type} [WorldView W] : WorldView (W × α) where
  dimensions w := WorldView.dimensions w.1
  entity? w := WorldView.entity? w.1
  living w := WorldView.living w.1
  players w := WorldView.players w.1
  block? w := WorldView.block? w.1
  score? w := WorldView.score? w.1
  playerNamed? w := WorldView.playerNamed? w.1

/-- Where a command runs from. -/
inductive CommandSource where
  | entity (id : EntityId)
  | dimension (id : DimensionId)
  deriving DecidableEq, Repr

/-- What can be changed in a world. -/
class Host (W : Type) extends WorldView W where
  addTag : EntityId → String → Effect W Unit
  removeTag : EntityId → String → Effect W Unit
  /-- The number of successes. -/
  submit : CommandSource → String → Effect W Nat

end CommandChain
