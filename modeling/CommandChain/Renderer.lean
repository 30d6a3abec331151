import CommandChain.Context.Basic

/-!
# Rendering contexts as commands

A `Renderer` writes the command that runs a text from a context:
`execute in … rotated … positioned … run …`.

A position bound to an entity cannot be written in coordinates without losing
the entity, so the entity is given a transient tag, its marker, while the
command is submitted, and the command finds it by that tag. Players are sought
with `@a`, which finds dead ones too.
-/

namespace CommandChain

structure Renderer where
  commandWord : String
  markerStem : String
  /-- Number of the next marker. -/
  nextMarker : UInt64
  deriving DecidableEq, Repr

namespace Renderer

variable {W : Type}

def ofSettings (s : Settings) : Renderer := ⟨s.commandWord, s.markerStem, 0⟩

/-- Dimension and rotation of a context. -/
def header (r : Renderer) (c : Context) : String :=
  r.commandWord ++ " in " ++ toString c.dimension ++ " rotated " ++ toString c.rotation

/-- The command with the position in coordinates, as it is at present. -/
def render [WorldView W] (r : Renderer) (world : W) (c : Context) (command : String) :
    Except Error String := do
  let point ← c.point world
  return r.header c ++ " positioned " ++ toString point ++ " run " ++ command

/-- The selector that finds the entity with a marker. -/
def markerSelector (marker : String) (isPlayer : Bool) : String :=
  (if isPlayer then "@a" else "@e") ++ "[tag=" ++ marker ++ ",c=1]"

/-- The command with the position of the entity that carries a marker. -/
def renderMarked (r : Renderer) (c : Context) (marker : String) (isPlayer : Bool)
    (command : String) : String :=
  let eyes := if c.anchor = .eyes then " anchored eyes positioned ^ ^ ^" else ""
  r.header c ++ " positioned as " ++ markerSelector marker isPlayer ++ eyes ++ " run " ++ command

/-- A marker not used before. -/
def freshMarker (r : Renderer) : String × Renderer :=
  (r.markerStem ++ toString r.nextMarker, { r with nextMarker := r.nextMarker + 1 })

/-- Where the commands of a context run from. -/
def source (c : Context) : CommandSource :=
  match c.executor with
  | some id => .entity id
  | none => .dimension c.dimension

/-- Submits a command while an entity carries a marker. -/
def submitMarked [Host W] (id : EntityId) (marker : String) (source : CommandSource)
    (command : String) : Effect W Nat := do
  Host.addTag id marker
  Effect.ensuring (Host.submit source command) (Host.removeTag id marker)

/-- Submits a command from a context: the number of successes. -/
def submit [Host W] (c : Context) (command : String) : Effect (W × Renderer) Nat :=
  fun (world, r) =>
  match c.position with
  | .fixed _ =>
    Effect.onFirst (do
      let text ← Effect.ofExcept (r.render world c command)
      Host.submit (source c) text) (world, r)
  | .bound id =>
    let isPlayer := (WorldView.entity? world id).any Entity.isPlayer
    let (marker, r') := r.freshMarker
    let text := r.renderMarked c marker isPlayer command
    Effect.onFirst (submitMarked id marker (source c) text) (world, r')

end Renderer

end CommandChain
