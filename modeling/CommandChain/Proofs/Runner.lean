import CommandChain.Proofs.Renderer
import CommandChain.Runner

/-!
# Runs as visits

A run is a visit from the runner's random source, and a run of a command a visit with a
`submission` in each context (`run_eq`, `runCommand_eq`).
-/

namespace CommandChain.Runner

variable {W : Type}

/-! ## Submissions -/

/-- What a run of a command does in a context. -/
def submission [Host W] (command : String) (c : Context) : Effect (W × Renderer) Unit := do
  let _ ← Renderer.submit c command

section

variable [Host W] {command : String} {c : Context} {state state' : W × Renderer}

theorem submission_of_ok {n : Nat} (h : Renderer.submit c command state = .ok n state') :
    submission command c state = .ok () state' := by
  rw [submission, bind_of_ok h]
  rfl

theorem submission_of_error {e : Error} (h : Renderer.submit c command state = .error e state') :
    submission command c state = .error e state' :=
  bind_of_error h

theorem stateLeft_submission (command : String) (c : Context) (state : W × Renderer) :
    stateLeft (submission command c state) = stateLeft (Renderer.submit c command state) := by
  cases h : Renderer.submit c command state with
  | ok n state' => rw [submission_of_ok h]; rfl
  | error e state' => rw [submission_of_error h]; rfl

theorem error?_submission (command : String) (c : Context) (state : W × Renderer) :
    error? (submission command c state) = error? (Renderer.submit c command state) := by
  cases h : Renderer.submit c command state with
  | ok n state' => rw [submission_of_ok h]; rfl
  | error e state' => rw [submission_of_error h]; rfl

end

/-! ## Runs -/

/-- The runner with the random source that a visit left. -/
def drawn (r : Runner) (state : W × Random) : W × Runner :=
  (state.1, { r with random := state.2 })

theorem run_eq [WorldView W] (chain : Chain) (root : Context) (action : Context → Effect W Unit)
    (world : W) (r : Runner) :
    run chain root action (world, r) =
      mapState r.drawn (chain.visit root action (world, r.random)) := by
  simp only [run]
  cases chain.visit root action (world, r.random) <;> rfl

/-- The runner with the random source and the renderer that a visit left. -/
def finish (r : Runner) (state : (W × Renderer) × Random) : W × Runner :=
  (state.1.1, { r with random := state.2, renderer := state.1.2 })

theorem runCommand_eq [Host W] (chain : Chain) (root : Context) (command : String) (world : W)
    (r : Runner) :
    runCommand chain root command (world, r) =
      mapState r.finish
        (chain.visit root (submission command) ((world, r.renderer), r.random)) := by
  have hsubmission : submission (W := W) command =
      fun c => (do let _ ← Renderer.submit c command) := rfl
  simp only [runCommand, hsubmission]
  cases chain.visit root _ ((world, r.renderer), r.random) <;> rfl

end CommandChain.Runner
