import CommandChain.Random
import CommandChain.Selector.Query

/-!
# Which entities a selector picks

`Selector.resolve` reads the world as it is at present. It gathers candidates
dimension by dimension, keeps those that the type and the permissions allow,
orders them, narrows them and cuts them off at the limit. Candidates are the
living entities, and the dead players unless the type is for the living only.

Only a random order draws from the random source.
-/

namespace CommandChain.Selector

variable {W : Type} [WorldView W]

/-- The dimensions searched. -/
def dimensions (s : Selector) (world : W) (c : Context) : List DimensionId :=
  if s.isSpatial then [c.dimension] else WorldView.dimensions world

/-- The entities in a dimension that the query admits: the players, dead ones
included, stand behind all others. -/
def candidatesIn (s : Selector) (world : W) (q : EntityQuery) (dimension : DimensionId) :
    List EntityId :=
  if s.type.aliveOnly then WorldView.living world dimension q
  else
    WorldView.living world dimension { q with excludeTypes := q.excludeTypes ++ [playerType] } ++
      WorldView.players world dimension q

def candidates (s : Selector) (world : W) (c : Context) (q : EntityQuery) : List EntityId :=
  (s.dimensions world c).flatMap (s.candidatesIn world q)

/-- The entity type that the selector type insists on. -/
def requiredType? (s : Selector) : Option String :=
  s.type.restriction.bind fun r =>
    if r.overridable && s.has "type" then none else some r.entityType

def satisfiesType (s : Selector) (world : W) (id : EntityId) : Bool :=
  s.requiredType?.all fun required =>
    (WorldView.entity? world id).any (·.entityType == required)

/-- The player's permissions are as `haspermission` asks. -/
def permits (entries : List (Entry ArgValue)) (p : PlayerState) : Bool :=
  entries.all fun e => (p.permission e.key == (e.value.text? == some "enabled")) != e.inverted

def satisfiesPermissions (s : Selector) (world : W) (id : EntityId) : Bool :=
  (s.mapEntries? "haspermission").all fun entries =>
    ((WorldView.entity? world id).bind (·.player)).any (permits entries)

/-- Place of an entity in the order by distance. -/
def remoteness (world : W) (centre : Vec3) (id : EntityId) : Int :=
  match WorldView.entity? world id with
  | some e => centre.remoteness e.location
  | none => Number.rank (1.0 / 0.0)

def byDistance (world : W) (centre : Vec3) (ids : List EntityId) : List EntityId :=
  ids.mergeSort fun a b => remoteness world centre a ≤ remoteness world centre b

/-- The order of the selector type. -/
def ordered (s : Selector) (world : W) (centre : Vec3) (ids : List EntityId) :
    Effect Random (List EntityId) := fun random =>
  match s.type.order with
  | .nearest => .ok (byDistance world centre ids) random
  | .random => let (ids, random) := random.shuffle ids; .ok ids random

def narrowed (s : Selector) (c : Context) (ids : List EntityId) : List EntityId :=
  match s.type.narrowing with
  | some narrow => narrow ids c.executor
  | none => ids

/-- The first entities up to the limit, counted from the end for a negative count. -/
def limited (s : Selector) (ids : List EntityId) : List EntityId :=
  let ids := if s.count?.any (· < 0) then ids.reverse else ids
  match s.limit? with
  | some limit => ids.take limit
  | none => ids

/-- The entities picked from a context, in the order in which a chain visits them. -/
def resolve (s : Selector) (world : W) (c : Context) : Effect Random (List EntityId) := do
  let centre ← Effect.ofExcept (s.centre world c)
  let q ← Effect.ofExcept (s.query centre)
  let admitted := (s.candidates world c q).filter fun id =>
    s.satisfiesType world id && s.satisfiesPermissions world id
  let ids ← s.ordered world centre admitted
  return s.limited (s.narrowed c ids)

end CommandChain.Selector
