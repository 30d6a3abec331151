import CommandChain.Proofs.Effect
import CommandChain.Renderer

/-!
# Submissions

Equations of `Renderer.submit`. A context in coordinates is one call of the host
(`submit_fixed`). A context bound to an entity takes the next marker (`submit_bound`),
and its command is submitted with the marker's removal behind it, if the marker could be
added (`submitMarked_of_ok`).
-/

namespace CommandChain

theorem toNat_add_ofNat {start : UInt64} {i : Nat} (h : start.toNat + i < UInt64.size) :
    (start + .ofNat i).toNat = start.toNat + i := by
  have hi : i < 2 ^ 64 := by have : UInt64.size = 2 ^ 64 := rfl; omega
  rw [UInt64.toNat_add, UInt64.toNat_ofNat_of_lt' hi]
  exact Nat.mod_eq_of_lt h

namespace Renderer

/-- The marker with a number. -/
def marker (stem : String) (number : UInt64) : String := stem ++ toString number

/-- The renderer after a number of markers. -/
def advanced (r : Renderer) (k : Nat) : Renderer :=
  { r with nextMarker := r.nextMarker + .ofNat k }

@[simp] theorem advanced_zero (r : Renderer) : r.advanced 0 = r := by
  simp [advanced]

@[simp] theorem advanced_advanced (r : Renderer) (j k : Nat) :
    (r.advanced j).advanced k = r.advanced (j + k) := by
  simp [advanced, UInt64.add_assoc]

@[simp] theorem markerStem_advanced (r : Renderer) (k : Nat) :
    (r.advanced k).markerStem = r.markerStem := rfl

/-- The command with a position in coordinates. -/
def renderAt (r : Renderer) (c : Context) (point : Vec3) (command : String) : String :=
  r.header c ++ " positioned " ++ toString point ++ " run " ++ command

/-- The command with the position of an entity that has the next marker. -/
def renderNext {W : Type} [WorldView W] (r : Renderer) (world : W) (c : Context) (id : EntityId)
    (command : String) : String :=
  r.renderMarked c (marker r.markerStem r.nextMarker)
    ((WorldView.entity? world id).any Entity.isPlayer) command

/-- The text submitted from a context. -/
def submitted {W : Type} [WorldView W] (r : Renderer) (world : W) (c : Context)
    (command : String) : String :=
  match c.position with
  | .fixed point => r.renderAt c point command
  | .bound id => r.renderNext world c id command

/-- Commands run from the executor, or from the context's dimension if there is none. -/
theorem source_eq (c : Context) :
    source c = c.executor.elim (.dimension c.dimension) .entity := by
  unfold source
  cases c.executor <;> rfl

/-- The renderer after a submission from a context. -/
def after (r : Renderer) (c : Context) : Renderer :=
  match c.position with
  | .fixed _ => r
  | .bound _ => r.advanced 1

section

variable {W : Type} [Host W] {c : Context} {id : EntityId} {tag command : String}
  {source : CommandSource} {world world' : W}

theorem submit_fixed {point : Vec3} (hc : c.position = .fixed point) (r : Renderer) :
    submit c command (world, r) =
      mapState (·, r) (Host.submit (Renderer.source c) (r.renderAt c point command) world) := by
  have hrender : r.render world c command = .ok (r.renderAt c point command) := by
    simp only [render, Context.point, hc]
    rfl
  simp only [submit, hc, hrender, Effect.onFirst_eq]
  rfl

theorem submit_bound (hc : c.position = .bound id) (r : Renderer) :
    submit c command (world, r) =
      mapState (·, r.advanced 1) (submitMarked id (marker r.markerStem r.nextMarker)
        (Renderer.source c) (r.renderNext world c id command) world) := by
  simp only [submit, hc, Effect.onFirst_eq]
  rfl

theorem submitMarked_of_error {e : Error} (h : Host.addTag id tag world = .error e world') :
    submitMarked id tag source command world = .error e world' :=
  bind_of_error h

theorem submitMarked_of_ok (h : Host.addTag id tag world = .ok () world') :
    submitMarked id tag source command world =
      Effect.ensuring (Host.submit source command) (Host.removeTag id tag) world' :=
  bind_of_ok h

end

end Renderer

end CommandChain
