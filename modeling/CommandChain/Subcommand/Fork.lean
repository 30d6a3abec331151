import CommandChain.Selector.Resolution

/-!
# Forks

A `Fork` turns a context into one for each entity that its selector picks, in
the order in which it picks them.
-/

namespace CommandChain

/-- What a context takes over from an entity. -/
inductive ForkKind where
  /-- The entity executes. -/
  | as
  /-- The context stands where the entity does, and is turned like it. -/
  | at
  | positionedAs
  | rotatedAs
  /-- The context looks at a point of the entity. -/
  | facingEntity (anchor : Anchor)
  deriving DecidableEq, Repr

structure Fork where
  kind : ForkKind
  selector : Selector

namespace Fork

variable {W : Type} [WorldView W]

/-- The context changed for one entity. -/
def adopt (kind : ForkKind) (world : W) (c : Context) (id : EntityId) : Except Error Context := do
  let e ← Context.record world id
  match kind with
  | .as => return { c with executor := some id }
  | .at => return { c with position := .bound id, rotation := e.rotation, dimension := e.dimension }
  | .positionedAs => return { c with position := .bound id }
  | .rotatedAs => return { c with rotation := e.rotation }
  | .facingEntity anchor => return { c with rotation := (← c.point world).lookAt (e.point anchor) }

def apply (f : Fork) (world : W) (c : Context) : Effect Random (List Context) := do
  let ids ← f.selector.resolve world c
  Effect.ofExcept (ids.mapM (adopt f.kind world c))

protected def toString (f : Fork) : String :=
  let selector := toString f.selector
  match f.kind with
  | .as => "as " ++ selector
  | .at => "at " ++ selector
  | .positionedAs => "positioned as " ++ selector
  | .rotatedAs => "rotated as " ++ selector
  | .facingEntity anchor => "facing entity " ++ selector ++ " " ++ toString anchor

instance : ToString Fork := ⟨Fork.toString⟩

end Fork

end CommandChain
