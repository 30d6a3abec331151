import CommandChain.Error

/-!
# Effects

An `Effect` changes a state and may fail; a failing effect keeps the changes
made before it failed. `onFirst` and `onSecond` run an effect on one component
of a pair of states, and `ensuring` runs a second effect even if the first one
fails.
-/

namespace CommandChain

/-- A computation on a state that may fail. -/
abbrev Effect (σ α : Type) := EStateM Error σ α

namespace Effect

variable {σ τ α : Type}

def ofExcept : Except Error α → Effect σ α
  | .ok a => fun s => .ok a s
  | .error e => fun s => .error e s

def onFirst (x : Effect σ α) : Effect (σ × τ) α := fun (s, t) =>
  match x s with
  | .ok a s => .ok a (s, t)
  | .error e s => .error e (s, t)

def onSecond (x : σ → Effect τ α) : Effect (σ × τ) α := fun (s, t) =>
  match x s t with
  | .ok a t => .ok a (s, t)
  | .error e t => .error e (s, t)

/-- Names the place of an error that has none yet. -/
def within (x : Effect σ α) (place : Place) : Effect σ α := fun s =>
  match x s with
  | .ok a s => .ok a s
  | .error e s => .error (e.within place) s

/-- Runs `cleanup` after `x`, whether or not `x` fails. An error of `x` comes
before one of `cleanup`. -/
def ensuring (x : Effect σ α) (cleanup : Effect σ Unit) : Effect σ α := fun s =>
  match x s with
  | .ok a s =>
    match cleanup s with
    | .ok _ s => .ok a s
    | .error e s => .error e s
  | .error e s =>
    match cleanup s with
    | .ok _ s => .error e s
    | .error _ s => .error e s

/-- Runs effects up to the first that fails: their results, how they ended, and
the state left. -/
def upToError : List (Effect σ α) → σ → List α × Except Error Unit × σ
  | [], s => ([], .ok (), s)
  | x :: rest, s =>
    match x s with
    | .error e s => ([], .error e, s)
    | .ok a s =>
      let (results, ending, s) := upToError rest s
      (a :: results, ending, s)

end Effect

end CommandChain
