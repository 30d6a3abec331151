import CommandChain.Renderer
import CommandChain.Walk.Finals

/-!
# Running chains

A `Runner` holds what goes on from one evaluation to the next: the random source
and the renderer with its markers.

`run` and `runCommand` draw from the runner's random source. `collect` and
`walk` split a source off it, so what they draw does not show in later runs.
-/

namespace CommandChain

structure Runner where
  settings : Settings
  random : Random
  renderer : Renderer
  deriving DecidableEq, Repr

namespace Runner

variable {W : Type}

def ofSettings (s : Settings) : Runner := ⟨s, .ofSeed s.seed, .ofSettings s⟩

instance : Inhabited Runner := ⟨ofSettings .standard⟩

/-- Runs `action` on every context that a chain makes of `root`: the number of
runs. -/
def run [WorldView W] (chain : Chain) (root : Context) (action : Context → Effect W Unit) :
    Effect (W × Runner) Nat := fun (world, r) =>
  match chain.visit root action (world, r.random) with
  | .ok n (world, random) => .ok n (world, { r with random })
  | .error e (world, random) => .error e (world, { r with random })

/-- Submits a command from every context that a chain makes of `root`: the number
of submissions. -/
def runCommand [Host W] (chain : Chain) (root : Context) (command : String) :
    Effect (W × Runner) Nat := fun (world, r) =>
  let submission (c : Context) : Effect (W × Renderer) Unit := do
    let _ ← Renderer.submit c command
  match chain.visit root submission ((world, r.renderer), r.random) with
  | .ok n ((world, renderer), random) => .ok n (world, { r with random, renderer })
  | .error e ((world, renderer), random) => .error e (world, { r with random, renderer })

/-- A random source split off the runner's. -/
def splitRandom (r : Runner) : Random × Runner :=
  let (split, random) := r.random.fork
  (split, { r with random })

/-- A walk of a chain. -/
def walk (chain : Chain) (root : Context) (r : Runner) : Walk × Runner :=
  let (random, r) := r.splitRandom
  (.start chain root random, r)

/-- Notes a context down. -/
def note (c : Context) : Effect (W × List Context) Unit :=
  modify fun (world, noted) => (world, noted ++ [c])

/-- The contexts with which the branches of a walk end, none of them acted upon. -/
def collect [WorldView W] (world : W) (chain : Chain) (root : Context) :
    Effect Runner (List Context) := fun r =>
  let (walk, r) := r.walk chain root
  match walk.finals world with
  | .ok contexts => .ok contexts r
  | .error e => .error e r

end Runner

end CommandChain
