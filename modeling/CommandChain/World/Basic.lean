import CommandChain.Entity.Store
import CommandChain.Text.Blank
import CommandChain.World.View

/-!
# Worlds

A `World` is a host kept in memory: entities by id, dimensions, blocks, scores,
the verbs it refuses and the log of the commands it accepted.

A command is accepted if neither its first word nor the first word behind its
last ` run ` is refused, and if every tag that it asks for (`tag=…`) is carried
by some entity.
-/

namespace CommandChain

/-- An accepted command. -/
structure Submission where
  source : CommandSource
  command : String
  deriving DecidableEq, Repr

structure World where
  store : EntityStore
  entities : OrderedMap EntityId Entity
  dimensions : OrderedSet DimensionId
  blocks : OrderedMap Site Block
  scoreboard : Scoreboard
  /-- The verbs that the world refuses. -/
  rejected : OrderedSet String
  /-- The accepted commands, oldest first. -/
  log : List Submission

namespace World

/-- The world of the three standard dimensions. -/
def new : World where
  store := ∅
  entities := ∅
  dimensions := .ofList [.overworld, .nether, .theEnd]
  blocks := ∅
  scoreboard := ∅
  rejected := ∅
  log := []

instance : Inhabited World := ⟨new⟩

def addDimension (w : World) (dimension : DimensionId) : World :=
  { w with dimensions := w.dimensions.add dimension }

/-- Adds an entity, and its dimension if the world lacks it. -/
def spawn (w : World) (e : Entity) : EntityId × World :=
  let (id, store) := w.store.allocate
  (id, { w with
    store
    dimensions := w.dimensions.add e.dimension
    entities := w.entities.insert id e })

def despawn (w : World) (id : EntityId) : Except Error World := do
  let store ← w.store.release id
  return { w with store, entities := w.entities.erase id }

/-- Changes an entity's record. -/
def edit (w : World) (id : EntityId) (f : Entity → Entity) : Except Error World := do
  w.store.validate id
  if w.entities.contains id then return { w with entities := w.entities.modify id f }
  else throw ⟨.entityNotFound id, none⟩

/-- Places a block, and adds its dimension if the world lacks it. -/
def setBlock (w : World) (dimension : DimensionId) (position : BlockPos) (b : Block) : World :=
  { w with
    dimensions := w.dimensions.add dimension
    blocks := w.blocks.insert ⟨dimension, position⟩ b }

def setScore (w : World) (objective : String) (holder : ScoreHolder) (value : Int64) : World :=
  { w with scoreboard := w.scoreboard.set objective holder value }

def addObjective (w : World) (name : String) : World :=
  { w with scoreboard := w.scoreboard.addObjective name }

/-- Makes the world refuse commands with that verb. -/
def reject (w : World) (verb : String) : World := { w with rejected := w.rejected.add verb }

def entityCount (w : World) : Nat := w.store.live

def entity? (w : World) (id : EntityId) : Option Entity :=
  match w.store.validate id with
  | .ok _ => w.entities.get? id
  | .error _ => none

/-- The entities in a dimension that a query admits, in id order. -/
def inDimension (w : World) (dimension : DimensionId) (q : EntityQuery) :
    List (EntityId × Entity) :=
  w.entities.entries.filter fun (id, e) =>
    e.dimension == dimension && q.admits (.entity id) e w.scoreboard

def living (w : World) (dimension : DimensionId) (q : EntityQuery) : List EntityId :=
  ((w.inDimension dimension q).filter fun (_, e) => e.alive).map (·.1)

def players (w : World) (dimension : DimensionId) (q : EntityQuery) : List EntityId :=
  ((w.inDimension dimension q).filter fun (_, e) => e.isPlayer).map (·.1)

def block? (w : World) (dimension : DimensionId) (position : BlockPos) : Option Block :=
  w.blocks.get? ⟨dimension, position⟩

def playerNamed? (w : World) (name : String) : Option EntityId :=
  (w.entities.entries.find? fun (_, e) => e.isPlayer && e.name == some name).map (·.1)

def addTag (w : World) (id : EntityId) (tag : String) : Except Error World :=
  w.edit id fun e => { e with tags := e.tags.add tag }

def removeTag (w : World) (id : EntityId) (tag : String) : Except Error World :=
  w.edit id fun e => { e with tags := e.tags.remove tag }

/-- The tags that a command asks for. -/
def tagsIn (command : List Char) : List String :=
  (Text.afterEach ['t', 'a', 'g', '='] command).map fun rest =>
    String.ofList (rest.takeWhile fun c => !(c == ',' || c == ']' || c == ' '))

def carried (w : World) (tag : String) : Bool := w.entities.values.any (·.tags.has tag)

/-- The command behind the last ` run `, or the whole text. -/
def executed (command : List Char) : List Char :=
  match Text.afterLast [' ', 'r', 'u', 'n', ' '] command with
  | some tail => Text.trim tail
  | none => command

/-- The first word of the executed command, or else `verb`. -/
def runVerb (command verb : List Char) : List Char :=
  (Text.firstWord (executed command)).getD verb

/-- Runs a command: the number of successes, and the world with the command logged. -/
def submit (w : World) (source : CommandSource) (command : String) :
    Except Error (Nat × World) := do
  let trimmed := Text.trim command.toList
  match Text.firstWord trimmed with
  | none => throw ⟨.commandFailed command "empty command", none⟩
  | some verb =>
    if let .entity id := source then
      w.store.validate id
    let run := String.ofList (runVerb trimmed verb)
    if w.rejected.has (String.ofList verb) || w.rejected.has run then
      throw ⟨.commandFailed command ("unknown command: " ++ run), none⟩
    else if !(tagsIn trimmed).all w.carried then
      throw ⟨.commandFailed command "no targets matched selector", none⟩
    else
      return (1, { w with log := w.log ++ [⟨source, String.ofList trimmed⟩] })

instance : WorldView World where
  dimensions w := w.dimensions.toList
  entity? := entity?
  living := living
  players := players
  block? := block?
  score? w := w.scoreboard.get?
  playerNamed? := playerNamed?

/-- A change as an effect; a failing one leaves the world as it was. -/
def effect (change : World → Except Error World) : Effect World Unit := fun w =>
  match change w with
  | .ok w => .ok () w
  | .error e => .error e w

instance : Host World where
  addTag id tag := effect (·.addTag id tag)
  removeTag id tag := effect (·.removeTag id tag)
  submit source command := fun w =>
    match w.submit source command with
    | .ok (n, w) => .ok n w
    | .error e => .error e w

end World

end CommandChain
