import CommandChain.Chain.Basic

/-!
# Walks

A `Walk` visits what `Chain.visit` visits, in the same order, one step for each
pull. A subcommand is applied only when the walk comes to it, to the world given
to that pull, so the world may change between pulls.

A step is a context made by a fork, a context made by the whole chain, or the
report that a subcommand made none.
-/

namespace CommandChain

/-- One step of a walk. -/
structure Step where
  /-- `none` if the subcommand made no context. -/
  context : Option Context
  /-- The subcommand that made it; an empty chain has none. -/
  subcommand : Option Subcommand
  /-- Number of the subcommand in the chain. -/
  index : Nat
  /-- The branch ends here. -/
  isFinal : Bool
  /-- The walk ends here. -/
  isLast : Bool

/-- Contexts made by subcommand `index` and not visited yet. -/
structure Frame where
  index : Nat
  children : List Context

/-- A walk between two pulls. -/
structure Walk where
  chain : Chain
  /-- The latest frame first. -/
  frames : List Frame
  /-- The context to go on from, with the number of the next subcommand. -/
  pending : Option (Context × Nat)
  random : Random

namespace Walk

variable {W : Type} [WorldView W]

def start (chain : Chain) (root : Context) (random : Random) : Walk :=
  ⟨chain, [], some (root, 0), random⟩

/-- There is nothing left to visit. -/
def isDone (w : Walk) : Bool := w.pending.isNone && w.frames.isEmpty

/-- The frames with unvisited contexts put on top. -/
def push (index : Nat) (children : List Context) (frames : List Frame) : List Frame :=
  if children.isEmpty then frames else ⟨index, children⟩ :: frames

/-- The next unvisited context, the number of the subcommand that made it, and
the frames without it. -/
def next? : List Frame → Option (Context × Nat × List Frame)
  | [] => none
  | ⟨_, []⟩ :: frames => next? frames
  | ⟨index, child :: children⟩ :: frames => some (child, index, push index children frames)

/-- A step with which its branch ends. -/
def finalStep (w : Walk) (context : Option Context) (s : Option Subcommand) (index : Nat) : Step :=
  ⟨context, s, index, true, w.frames.isEmpty⟩

/-- Comes to a context that subcommand `index` has made: stops there if the chain
ends or forks, and goes on otherwise. -/
def arrive (s : Subcommand) (isLast : Bool) (index : Nat) (child : Context)
    (onward : Effect Walk (Option Step)) : Effect Walk (Option Step) := fun w =>
  if isLast then .ok (some (w.finalStep child s index)) w
  else if s.isFork then
    .ok (some ⟨child, s, index, false, false⟩) { w with pending := some (child, index + 1) }
  else onward w

/-- Applies subcommands, the first of them being number `index`, up to the next
step. An error ends the walk. -/
def descend (world : W) : List Subcommand → Nat → Context → Effect Walk (Option Step)
  | [], index, c => fun w => .ok (some (w.finalStep c none index)) w
  | s :: rest, index, c => fun w =>
    match s.applyAt index world c w.random with
    | .error e random => .error e { w with frames := [], random }
    | .ok [] random => .ok (some (w.finalStep none s index)) { w with random }
    | .ok (child :: children) random =>
      arrive s rest.isEmpty index child (descend world rest (index + 1) child)
        { w with frames := push index children w.frames, random }

/-- Goes on from the next unvisited context. -/
def resume (world : W) : Effect Walk (Option Step) := fun w =>
  match next? w.frames with
  | none => .ok none { w with frames := [] }
  | some (child, index, frames) =>
    match w.chain.subcommands.drop index with
    | [] => .ok none { w with frames := [] }
    | s :: rest =>
      arrive s rest.isEmpty index child (descend world rest (index + 1) child) { w with frames }

/-- The next step; `none` once the walk is over. -/
def pull (world : W) : Effect Walk (Option Step) := fun w =>
  match w.pending with
  | some (c, index) =>
    descend world (w.chain.subcommands.drop index) index c { w with pending := none }
  | none => resume world w

end Walk

end CommandChain
