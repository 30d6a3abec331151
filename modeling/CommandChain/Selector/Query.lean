import CommandChain.Context.Basic
import CommandChain.Coordinate.Basic
import CommandChain.Selector.Basic

/-!
# What a selector asks of a world

`Selector.centre` is the point that distances and volumes are counted from, and
`Selector.query` the filter that the arguments spell.
-/

namespace CommandChain.Selector

variable {W : Type} [WorldView W]

/-- The coordinate that an argument gives, or the current one. -/
def coordinate (s : Selector) (axis : String) : Coord :=
  match s.first? axis with
  | some (.relative offset) => .relative offset
  | some value => (value.number?.map Coord.absolute).getD (.relative 0)
  | none => .relative 0

/-- The point given by `x`, `y` and `z`. -/
def centre (s : Selector) (world : W) (c : Context) : Except Error Vec3 := do
  let here ← c.point world
  PositionExpr.resolve ⟨s.coordinate "x", s.coordinate "y", s.coordinate "z"⟩ here c.rotation

def number? (s : Selector) (name : String) : Option Float := (s.first? name).bind ArgValue.number?

def int? (s : Selector) (name : String) : Option Int64 := (s.first? name).bind ArgValue.int?

/-- The text that entities must have. -/
def wanted? (s : Selector) (name : String) : Option String := (s.positive? name).bind ArgValue.text?

/-- The texts that entities must not have. -/
def unwanted (s : Selector) (name : String) : List String :=
  (s.inverted name).filterMap ArgValue.text?

/-- The extent given by `dx`, `dy` and `dz`; what is missing is zero. -/
def volume? (s : Selector) : Option Vec3 :=
  if ["dx", "dy", "dz"].any s.has then
    some ⟨(s.number? "dx").getD 0, (s.number? "dy").getD 0, (s.number? "dz").getD 0⟩
  else none

/-- The game mode that a value of `m` names. -/
def gameMode (value : ArgValue) : Except Error GameMode :=
  match GameMode.parse (toString value) with
  | some mode => .ok mode
  | none => .error (Fault.selector (.shapeMismatch "m" (toString value)))

/-- The entries of a map argument. -/
def mapEntries? (s : Selector) (name : String) : Option (List (Entry ArgValue)) :=
  match s.first? name with
  | some (.map entries) => some entries
  | _ => none

/-- The conditions given by `scores`. -/
def scoreFilters (s : Selector) : List ScoreFilter :=
  ((s.mapEntries? "scores").getD []).filterMap fun e =>
    e.value.range?.map fun range => ⟨e.key, range, e.inverted⟩

/-- The conditions on identity, placement and scores. -/
def queryWithoutMode (s : Selector) (centre : Vec3) : EntityQuery :=
  { EntityQuery.around centre with
    entityType := (s.wanted? "type").map qualify
    excludeTypes := (s.unwanted "type").map qualify
    name := s.wanted? "name"
    excludeNames := s.unwanted "name"
    tags := (s.wanted? "tag").toList
    excludeTags := s.unwanted "tag"
    families := (s.wanted? "family").toList
    excludeFamilies := s.unwanted "family"
    maxDistance := s.number? "r"
    minDistance := s.number? "rm"
    volume := s.volume?
    maxPitch := s.number? "rx"
    minPitch := s.number? "rxm"
    maxYaw := s.number? "ry"
    minYaw := s.number? "rym"
    maxLevel := s.int? "l"
    minLevel := s.int? "lm"
    scores := s.scoreFilters }

/-- The filter that the arguments spell. -/
def query (s : Selector) (centre : Vec3) : Except Error EntityQuery := do
  let mode ← (s.positive? "m").mapM gameMode
  let excluded ← (s.inverted "m").mapM gameMode
  return { s.queryWithoutMode centre with gameMode := mode, excludeGameModes := excluded }

/-- The search is confined to the dimension of the context. -/
def isSpatial (s : Selector) : Bool := ["dx", "dy", "dz", "r", "rm"].any s.has

end CommandChain.Selector
