import CommandChain.Identifier

/-!
# Errors

An `Error` is a `Fault`, the cause, with an optional `Place`: the text in which
it arose and the subcommand that was being applied. `Fault.message` is the
wording of every fault.

Malformed text is a `parse` fault. Text that is well formed but means nothing is
a `SelectorFault`. The other faults arise while a chain runs.
-/

namespace CommandChain

/-- Why well-formed selector text means nothing. -/
inductive SelectorFault where
  | unknownType (name : String)
  | unknownArgument (name : String)
  | notInvertible (argument : String)
  | duplicated (argument : String)
  | shapeMismatch (argument value : String)
  | typeRestricted (selectorType : String)
  | ambiguousHolder (holder : String)
  deriving DecidableEq, Repr

def SelectorFault.message : SelectorFault → String
  | unknownType name => "unknown selector type: @" ++ name
  | unknownArgument name => "unknown selector argument: " ++ name
  | notInvertible argument => "selector argument `" ++ argument ++ "` cannot be inverted"
  | duplicated argument => "selector argument `" ++ argument ++ "` is duplicated"
  | shapeMismatch argument value =>
    "invalid value for selector argument `" ++ argument ++ "`: " ++ value
  | typeRestricted selectorType =>
    "selector @" ++ selectorType ++ " does not allow overriding its entity type"
  | ambiguousHolder holder => "score holder `" ++ holder ++ "` must select a single entity"

/-- Why an operation failed. -/
inductive Fault where
  /-- Malformed text, with the cursor in bytes and up to eight characters on
  either side of it. -/
  | parse (message : String) (position : Nat) (before after : String)
  | selector (fault : SelectorFault)
  /-- Local and world coordinates in one position or rotation. -/
  | invalidNotation (message : String)
  | entityNotFound (id : EntityId)
  /-- The slot of the entity belongs to a later one. -/
  | staleEntity (id : EntityId)
  | unknownDimension (name : String)
  | commandFailed (command message : String)
  | internal (message : String)
  deriving DecidableEq, Repr

namespace Fault

def message : Fault → String
  | parse message position before after =>
    "parse error at " ++ toString position ++ ": " ++ message ++ " (near `" ++ before ++ "<-->" ++
      after ++ "`)"
  | selector fault => fault.message
  | invalidNotation message => "invalid notation: " ++ message
  | entityNotFound id => "entity not found: " ++ id.full
  | staleEntity id => "stale entity reference: " ++ id.full
  | unknownDimension name => "unknown dimension: " ++ name
  | commandFailed command message => "command `" ++ command ++ "` failed: " ++ message
  | internal message => "internal error: " ++ message

def isParse : Fault → Bool
  | parse .. => true
  | _ => false

def isNotation : Fault → Bool
  | invalidNotation _ => true
  | _ => false

/-- The selector fault, if it is one. -/
def selector? : Fault → Option SelectorFault
  | selector fault => some fault
  | _ => none

end Fault

/-- Where an error arose. -/
structure Place where
  source : Option String
  subcommand : Option Nat
  deriving DecidableEq, Repr

protected def Place.toString (p : Place) : String :=
  match p.source, p.subcommand with
  | some source, some index => "in `" ++ source ++ "` at subcommand " ++ toString index
  | some source, none => "in `" ++ source ++ "`"
  | none, some index => "at subcommand " ++ toString index
  | none, none => ""

instance : ToString Place := ⟨Place.toString⟩

structure Error where
  fault : Fault
  place : Option Place
  deriving DecidableEq, Repr

namespace Error

def message (e : Error) : String := e.fault.message

instance : Coe Fault Error := ⟨fun fault => ⟨fault, none⟩⟩

/-- The error, placed unless it already was. -/
def within (e : Error) (place : Place) : Error :=
  match e.place with
  | some _ => e
  | none => { e with place := some place }

end Error

end CommandChain
