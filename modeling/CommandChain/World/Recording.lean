import CommandChain.World.View

/-!
# Recorded worlds

A `Recorded` world keeps the list of changes that were asked of it, those that
failed included.
-/

namespace CommandChain

/-- A change asked of a host. -/
inductive HostCall where
  | addTag (id : EntityId) (tag : String)
  | removeTag (id : EntityId) (tag : String)
  | submit (source : CommandSource) (command : String)
  deriving DecidableEq, Repr

/-- The call without the entity or the source. -/
protected def HostCall.toString : HostCall → String
  | addTag _ tag => "add " ++ tag
  | removeTag _ tag => "remove " ++ tag
  | submit _ command => "submit " ++ command

instance : ToString HostCall := ⟨HostCall.toString⟩

/-- A world with the changes asked of it, oldest first. -/
structure Recorded (W : Type) where
  world : W
  calls : List HostCall

namespace Recorded

variable {W α : Type}

/-- Notes a call down, then makes it. -/
def call (c : HostCall) (x : Effect W α) : Effect (Recorded W) α := fun r =>
  let calls := r.calls ++ [c]
  match x r.world with
  | .ok a world => .ok a ⟨world, calls⟩
  | .error e world => .error e ⟨world, calls⟩

instance [WorldView W] : WorldView (Recorded W) where
  dimensions r := WorldView.dimensions r.world
  entity? r := WorldView.entity? r.world
  living r := WorldView.living r.world
  players r := WorldView.players r.world
  block? r := WorldView.block? r.world
  score? r := WorldView.score? r.world
  playerNamed? r := WorldView.playerNamed? r.world

instance [Host W] : Host (Recorded W) where
  addTag id tag := call (.addTag id tag) (Host.addTag id tag)
  removeTag id tag := call (.removeTag id tag) (Host.removeTag id tag)
  submit source command := call (.submit source command) (Host.submit source command)

end Recorded

end CommandChain
