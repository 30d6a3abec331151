import CommandChain.Chain.Parser
import CommandChain.Runner

/-!
# Sessions

A `Session` works on one world step by step: it has a runner, and contexts,
chains and walks under names. Single selectors, subcommands and commands are
tried out with a random source and a renderer of the session's own, so that they
do not show in the runs.
-/

namespace CommandChain

structure Session (W : Type) where
  registry : SelectorRegistry
  world : W
  runner : Runner
  /-- Source for single selectors and subcommands. -/
  random : Random
  /-- Renderer for single commands. -/
  renderer : Renderer
  contexts : OrderedMap String Context
  chains : OrderedMap String Chain
  walks : OrderedMap String Walk
  /-- Worlds kept aside, oldest first. -/
  snapshots : List W
  /-- Number of roots made. -/
  roots : Nat

namespace Session

variable {W σ α : Type}

/-- A session with the standard settings in which nothing is named yet. -/
def start (registry : SelectorRegistry) (world : W) : Session W where
  registry := registry
  world := world
  runner := .ofSettings .standard
  random := .ofSeed 0
  renderer := .ofSettings .standard
  contexts := ∅
  chains := ∅
  walks := ∅
  snapshots := []
  roots := 0

/-- The session with a new runner and a new renderer. -/
def configure (s : Session W) (settings : Settings) : Session W :=
  { s with runner := .ofSettings settings, renderer := .ofSettings settings }

/-- Keeps the world aside. -/
def snapshot (s : Session W) : Session W := { s with snapshots := s.snapshots ++ [s.world] }

def nameContext (s : Session W) (name : String) (c : Context) : Session W :=
  { s with contexts := s.contexts.insert name c }

def nameWalk (s : Session W) (name : String) (walk : Walk) : Session W :=
  { s with walks := s.walks.insert name walk }

/-- Runs an effect on a part of a session. -/
def onPart (part : Session W → σ) (withPart : Session W → σ → Session W) (x : Effect σ α) :
    Effect (Session W) α := fun s =>
  match x (part s) with
  | .ok a t => .ok a (withPart s t)
  | .error e t => .error e (withPart s t)

def onWorld : Effect W α → Effect (Session W) α := onPart world fun s world => { s with world }

def onRandom : Effect Random α → Effect (Session W) α :=
  onPart random fun s random => { s with random }

def onRunner : Effect (W × Runner) α → Effect (Session W) α :=
  onPart (fun s => (s.world, s.runner)) fun s (world, runner) => { s with world, runner }

def onRenderer : Effect (W × Renderer) α → Effect (Session W) α :=
  onPart (fun s => (s.world, s.renderer)) fun s (world, renderer) => { s with world, renderer }

/-- Reads a chain and names it. -/
def readChain (name : String) (phrases : List Phrase) : Effect (Session W) Chain := do
  let chain ← Effect.ofExcept (Chain.parse (← get).registry phrases)
  modify fun s => { s with chains := s.chains.insert name chain }
  return chain

/-- Starts a walk and names it. -/
def startWalk (name : String) (chain : Chain) (c : Context) : Effect (Session W) Unit :=
  modify fun s =>
    let (walk, runner) := s.runner.walk chain c
    { s with runner, walks := s.walks.insert name walk }

variable [WorldView W]

/-- Makes the first context for a sender and names it. -/
def root (name : String) (sender : Sender) : Effect (Session W) Context := do
  let s ← get
  set { s with roots := s.roots + 1 }
  let c ← Effect.ofExcept (Context.root s.world s.runner.settings ⟨s.roots, sender⟩)
  modify (·.nameContext name c)
  return c

/-- The entities that a selector text picks. -/
def resolve (text : String) (c : Context) : Effect (Session W) (List EntityId) := do
  let s ← get
  let selector ← Effect.ofExcept (Selector.parse s.registry text)
  onRandom (selector.resolve s.world c)

def apply (subcommand : Subcommand) (c : Context) : Effect (Session W) (List Context) := do
  onRandom (subcommand.apply (← get).world c)

def collect (chain : Chain) (c : Context) : Effect (Session W) (List Context) :=
  onRunner (Effect.onSecond fun world => Runner.collect world chain c)

end Session

end CommandChain
