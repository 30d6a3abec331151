import CommandChain.World.Basic

/-!
# Worlds with a lethal verb

In a `LethalWorld` an entity that runs a command with the lethal verb is removed
once the command has been accepted.
-/

namespace CommandChain

structure LethalWorld where
  world : World
  /-- The lethal verb; `none` if every verb is harmless. -/
  verb : Option String

namespace LethalWorld

/-- The command runs the lethal verb. -/
def kills (w : LethalWorld) (command : String) : Bool :=
  w.verb.any fun verb =>
    !(Text.afterEach ([' ', 'r', 'u', 'n', ' '] ++ verb.toList) command.toList).isEmpty

/-- A change of the world as an effect. -/
def onWorld {α : Type} (x : Effect World α) : Effect LethalWorld α := fun w =>
  match x w.world with
  | .ok a world => .ok a { w with world }
  | .error e world => .error e { w with world }

instance : WorldView LethalWorld where
  dimensions w := WorldView.dimensions w.world
  entity? w := w.world.entity?
  living w := w.world.living
  players w := w.world.players
  block? w := w.world.block?
  score? w := WorldView.score? w.world
  playerNamed? w := w.world.playerNamed?

/-- Submits a command, then removes its source if it ran the lethal verb. -/
def submit (source : CommandSource) (command : String) : Effect LethalWorld Nat := do
  let successes ← onWorld (Host.submit source command)
  if let .entity id := source then
    if (← get).kills command then
      onWorld (World.effect (·.despawn id))
  return successes

instance : Host LethalWorld where
  addTag id tag := onWorld (Host.addTag id tag)
  removeTag id tag := onWorld (Host.removeTag id tag)
  submit := submit

end LethalWorld

end CommandChain
