import CommandChain.Entity.Basic
import CommandChain.Value.Shape

/-!
# Selector types and arguments

A `SelectorRegistry` says what `@x` means (`SelectorType`) and which arguments
may stand in the brackets after it (`ArgumentSpec`). `standard` holds the types
`@a @e @p @r @s` and their arguments.
-/

namespace CommandChain

/-- The order in which selected entities are listed. -/
inductive ResultOrder where
  /-- By distance from the selector's anchor. -/
  | nearest
  | random
  deriving DecidableEq, Repr

/-- An entity type that a selector is limited to. -/
structure TypeRestriction where
  entityType : String
  /-- A `type` argument takes its place. -/
  overridable : Bool
  deriving DecidableEq, Repr

/-- Narrows the candidates, given the executor. -/
abbrev Narrowing := List EntityId → Option EntityId → List EntityId

/-- The executor alone, if it is a candidate. -/
def executorOnly : Narrowing := fun candidates executor =>
  (executor.filter candidates.contains).toList

/-- What `@name` stands for. -/
structure SelectorType where
  /-- Empty for the form without `@`. -/
  name : String
  order : ResultOrder
  aliveOnly : Bool
  restriction : Option TypeRestriction
  /-- The number of results where no count is given. -/
  limit : Option Nat
  narrowing : Option Narrowing

namespace SelectorType

/-- The type of that order without further rules. -/
def plain (name : String) (order : ResultOrder) : SelectorType :=
  ⟨name, order, false, none, none, none⟩

/-- The type limited to players. -/
def ofPlayers (t : SelectorType) (overridable : Bool) : SelectorType :=
  { t with restriction := some ⟨playerType, overridable⟩ }

def single (t : SelectorType) : SelectorType := { t with limit := some 1 }

/-- The form without `@`. -/
def isName (t : SelectorType) : Bool := t.name.isEmpty

/-- Types are compared by name. -/
instance : BEq SelectorType := ⟨fun a b => a.name == b.name⟩

end SelectorType

/-- How often an argument may stand in a selector. -/
inductive Duplication where
  | never
  /-- Once without `!`, any number of times with it. -/
  | invertedOnly
  | always
  deriving DecidableEq, Repr

namespace Duplication

/-- The inversion flags of an argument's occurrences are too many. -/
def violated : Duplication → List Bool → Bool
  | never, flags => 1 < flags.length
  | invertedOnly, flags => 1 < flags.count false
  | always, _ => false

end Duplication

/-- The rules for one argument. -/
structure ArgumentSpec where
  name : String
  shape : Shape
  duplication : Duplication
  /-- `key=!value` is accepted. -/
  invertible : Bool

/-- The known selector types and arguments. -/
structure SelectorRegistry where
  types : OrderedMap String SelectorType
  arguments : OrderedMap String ArgumentSpec

namespace SelectorRegistry

/-- The registry without types and arguments. -/
def empty : SelectorRegistry := ⟨∅, ∅⟩

/-- The type of a bare player name. -/
def nameType : SelectorType := ((SelectorType.plain "" .nearest).ofPlayers false).single

/-- Adds a type, or replaces the one of that name. -/
def withType (r : SelectorRegistry) (t : SelectorType) : SelectorRegistry :=
  { r with types := r.types.insert t.name t }

/-- Adds an argument, or replaces the one of that name. -/
def withArgument (r : SelectorRegistry) (spec : ArgumentSpec) : SelectorRegistry :=
  { r with arguments := r.arguments.insert spec.name spec }

def type? (r : SelectorRegistry) (name : String) : Option SelectorType := r.types.get? name

def argument? (r : SelectorRegistry) (name : String) : Option ArgumentSpec := r.arguments.get? name

def typeNames (r : SelectorRegistry) : List String := r.types.keys

def gameModeWords : List String :=
  ["survival", "s", "creative", "c", "adventure", "a", "spectator"]

def gameModeNumbers : List Int64 := [0, 1, 2, 6]

def permissionStates : List String := ["enabled", "disabled"]

def count : Shape := .union [.int, .range]

/-- One item that an entity is asked to have. -/
def item : Shape :=
  .record [("item", .text), ("location", .text), ("slot", count), ("quantity", count),
    ("data", .int)]

/-- `@a @e @p @r @s`. -/
def standardTypes : List SelectorType :=
  [(SelectorType.plain "a" .nearest).ofPlayers false,
    { SelectorType.plain "e" .nearest with aliveOnly := true },
    ((SelectorType.plain "p" .nearest).ofPlayers false).single,
    ((SelectorType.plain "r" .random).ofPlayers true).single,
    { (SelectorType.plain "s" .nearest).single with narrowing := some executorOnly }]

def standardArguments : List ArgumentSpec :=
  (["x", "y", "z"].map fun name => ⟨name, .union [.number, .relative], .never, false⟩) ++
  (["dx", "dy", "dz", "r", "rm", "rx", "rxm", "ry", "rym"].map fun name =>
    ⟨name, .number, .never, false⟩) ++
  (["l", "lm", "c"].map fun name => ⟨name, .int, .never, false⟩) ++
  (["tag", "family", "type", "name"].map fun name => ⟨name, .text, .always, true⟩) ++
  [⟨"m", .union [.oneOf gameModeWords, .intOneOf gameModeNumbers], .invertedOnly, true⟩,
    ⟨"scores", .mapOf count, .never, false⟩,
    ⟨"haspermission", .mapOf (.oneOf permissionStates), .never, false⟩,
    ⟨"hasitem", .union [item, .listOf item], .never, false⟩]

def standard : SelectorRegistry :=
  standardArguments.foldl withArgument (standardTypes.foldl withType empty)

end SelectorRegistry

end CommandChain
