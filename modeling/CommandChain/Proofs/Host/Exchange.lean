import CommandChain.Proofs.Renderer
import CommandChain.World.Recording

/-!
# What is asked of a host for one context

An `Exchange` is what a host is asked while one command is submitted: the submission
alone if the context stands in coordinates, and else to add a marker, the submission,
and to remove the marker. `Exchange.Answered` says that this is how the host answers
from one state to another.

Every submission is one exchange, and ends as it does: `exists_submitted`.
-/

namespace CommandChain

/-- What is asked of a host for one context, with the errors of its answers. -/
inductive Exchange where
  /-- The context stands in coordinates. -/
  | plain (c : Context) (command : String) (failed : Option Error)
  /-- The entity could not be marked. -/
  | refused (c : Context) (id : EntityId) (number : UInt64) (e : Error)
  /-- The entity was marked while the command was submitted. -/
  | marked (c : Context) (id : EntityId) (number : UInt64) (command : String)
      (failed removalFailed : Option Error)

namespace Exchange

open Renderer (marker)

def context : Exchange → Context
  | plain c _ _ => c
  | refused c _ _ _ => c
  | marked c _ _ _ _ _ => c

/-- The number of the marker, if there is one. -/
def numbers : Exchange → List UInt64
  | plain _ _ _ => []
  | refused _ _ n _ => [n]
  | marked _ _ n _ _ _ => [n]

/-- The calls in order. -/
def calls (stem : String) : Exchange → List HostCall
  | plain c command _ => [.submit (Renderer.source c) command]
  | refused _ id n _ => [.addTag id (marker stem n)]
  | marked c id n command _ _ =>
    [.addTag id (marker stem n), .submit (Renderer.source c) command,
      .removeTag id (marker stem n)]

/-- The error in which the exchange ends: that of the submission comes before one about
the marker. -/
def failure? : Exchange → Option Error
  | plain _ _ failed => failed
  | refused _ _ _ e => some e
  | marked _ _ _ _ failed removalFailed => failed <|> removalFailed

/-- The host answers so, going from state `w` to the last one. -/
inductive Answered {W : Type} [Host W] (stem : String) (w : W) : Exchange → W → Prop where
  | plain {c : Context} {point : Vec3} {command : String} {r : EStateM.Result Error W Nat} :
      c.position = .fixed point → Host.submit (Renderer.source c) command w = r →
      Answered stem w (plain c command (error? r)) (stateLeft r)
  | refused {c : Context} {id : EntityId} {n : UInt64} {e : Error} {w' : W} :
      c.position = .bound id → Host.addTag id (marker stem n) w = .error e w' →
      Answered stem w (refused c id n e) w'
  | marked {c : Context} {id : EntityId} {n : UInt64} {command : String} {w' : W}
      {r : EStateM.Result Error W Nat} {r' : EStateM.Result Error W Unit} :
      c.position = .bound id → Host.addTag id (marker stem n) w = .ok () w' →
      Host.submit (Renderer.source c) command w' = r →
      Host.removeTag id (marker stem n) (stateLeft r) = r' →
      Answered stem w (marked c id n command (error? r) (error? r')) (stateLeft r')

end Exchange

/-- `k` numbers in a row. -/
def countedFrom (start : UInt64) (k : Nat) : List UInt64 :=
  (List.range k).map fun i => start + .ofNat i

theorem countedFrom_one (start : UInt64) : countedFrom start 1 = [start] := by
  simp [countedFrom]

theorem countedFrom_add (start : UInt64) (j k : Nat) :
    countedFrom start (j + k) = countedFrom start j ++ countedFrom (start + .ofNat j) k := by
  simp [countedFrom, List.range_add, UInt64.add_assoc]

/-- The numbers ascend as long as they are less than `2 ^ 64`. -/
theorem pairwise_countedFrom {start : UInt64} {k : Nat} (h : start.toNat + k < UInt64.size) :
    (countedFrom start k).Pairwise (· < ·) := by
  refine List.pairwise_map.2 (List.pairwise_lt_range.imp_of_mem ?_)
  intro i j _ hj hij
  have hk : j < k := List.mem_range.1 hj
  rw [UInt64.lt_iff_toNat_lt, toNat_add_ofNat (by omega), toNat_add_ofNat (by omega)]
  omega

theorem le_of_mem_countedFrom {start n : UInt64} {k : Nat} (h : start.toNat + k < UInt64.size)
    (hn : n ∈ countedFrom start k) : start ≤ n := by
  obtain ⟨i, hi, rfl⟩ := List.mem_map.1 hn
  have hk : i < k := List.mem_range.1 hi
  rw [UInt64.le_iff_toNat_le, toNat_add_ofNat (by omega)]
  omega

/-! ## Submissions to a recorded host -/

/-- A submission is one exchange. -/
structure Submitted {W : Type} [Host W] (c : Context) (w : Recorded W) (r : Renderer)
    (result : EStateM.Result Error (Recorded W × Renderer) Nat) (x : Exchange) : Prop where
  context : x.context = c
  answered : x.Answered r.markerStem w.world (stateLeft result).1.world
  calls : (stateLeft result).1.calls = w.calls ++ x.calls r.markerStem
  failure : error? result = x.failure?
  numbers : x.numbers = countedFrom r.nextMarker x.numbers.length
  renderer : (stateLeft result).2 = r.advanced x.numbers.length

section

variable {W : Type} [Host W] {c : Context}

omit [Host W] in
/-- Everything the host was asked by then stays on record. -/
theorem recorded_call {α : Type} (call : HostCall) (x : Effect W α) (w : Recorded W) :
    Recorded.call call x w = mapState (fun world => ⟨world, w.calls ++ [call]⟩) (x w.world) := by
  simp only [Recorded.call]
  cases x w.world <;> rfl

theorem recorded_addTag (id : EntityId) (tag : String) (w : Recorded W) :
    Host.addTag id tag w =
      mapState (fun world => ⟨world, w.calls ++ [.addTag id tag]⟩) (Host.addTag id tag w.world) :=
  recorded_call _ _ w

theorem recorded_removeTag (id : EntityId) (tag : String) (w : Recorded W) :
    Host.removeTag id tag w = mapState (fun world => ⟨world, w.calls ++ [.removeTag id tag]⟩)
      (Host.removeTag id tag w.world) :=
  recorded_call _ _ w

theorem recorded_submit (source : CommandSource) (command : String) (w : Recorded W) :
    Host.submit source command w =
      mapState (fun world => ⟨world, w.calls ++ [.submit source command]⟩)
        (Host.submit source command w.world) :=
  recorded_call _ _ w

/-- A context in coordinates. -/
theorem submitted_plain {point : Vec3} (hc : c.position = .fixed point) (command : String)
    (w : Recorded W) (r : Renderer) :
    ∃ x, Submitted c w r (Renderer.submit c command (w, r)) x := by
  let text := r.renderAt c point command
  rw [Renderer.submit_fixed hc, recorded_submit]
  refine ⟨.plain c text (error? (Host.submit (Renderer.source c) text w.world)), rfl, ?_, ?_, ?_,
    rfl, ?_⟩
  · simp only [stateLeft_mapState]
    exact .plain hc rfl
  · simp only [stateLeft_mapState]
    rfl
  · simp only [error?_mapState]
    rfl
  · simp only [stateLeft_mapState]
    exact (r.advanced_zero).symm

/-- A context bound to an entity. -/
theorem submitted_bound {id : EntityId} (hc : c.position = .bound id) (command : String)
    (w : Recorded W) (r : Renderer) :
    ∃ x, Submitted c w r (Renderer.submit c command (w, r)) x := by
  let tag := Renderer.marker r.markerStem r.nextMarker
  let text := r.renderNext w c id command
  rw [Renderer.submit_bound hc]
  have htag := recorded_addTag id tag w
  cases ha : Host.addTag id tag w.world with
  | error e w' =>
    rw [ha] at htag
    rw [Renderer.submitMarked_of_error htag]
    exact ⟨.refused c id r.nextMarker e, rfl, .refused hc ha, rfl, rfl,
      (countedFrom_one _).symm, rfl⟩
  | ok u w' =>
    rw [ha] at htag
    rw [Renderer.submitMarked_of_ok htag]
    let submitted := Host.submit (Renderer.source c) text w'
    let removed := Host.removeTag id tag (stateLeft submitted)
    refine ⟨.marked c id r.nextMarker text (error? submitted) (error? removed), rfl, ?_, ?_, ?_,
      (countedFrom_one _).symm, ?_⟩
    · simp only [stateLeft_mapState, Effect.stateLeft_ensuring, recorded_submit,
        recorded_removeTag]
      exact .marked hc ha rfl rfl
    · simp only [stateLeft_mapState, Effect.stateLeft_ensuring, recorded_submit,
        recorded_removeTag, List.append_assoc]
      rfl
    · simp only [stateLeft_mapState, error?_mapState, Effect.error?_ensuring, recorded_submit,
        recorded_removeTag]
      rfl
    · simp only [stateLeft_mapState]
      rfl

/-- Every submission is one exchange, and ends as it does. -/
theorem exists_submitted (c : Context) (command : String) (w : Recorded W) (r : Renderer) :
    ∃ x, Submitted c w r (Renderer.submit c command (w, r)) x := by
  cases hc : c.position with
  | fixed point => exact submitted_plain hc command w r
  | bound id => exact submitted_bound hc command w r

/-! ## The record alone -/

omit [Host W] in
theorem projects_call {α : Type} {call : HostCall} {x : Effect W α} :
    Effect.Projects Recorded.world (Recorded.call call x) x := by
  intro w
  rw [recorded_call, mapState_mapState]
  exact (mapState_id _).symm

theorem projects_submitMarked (id : EntityId) (tag : String) (source : CommandSource)
    (command : String) :
    Effect.Projects Recorded.world (Renderer.submitMarked (W := Recorded W) id tag source command)
      (Renderer.submitMarked id tag source command) :=
  projects_call.bind fun _ => projects_call.ensuring projects_call

/-- Keeping a record does not change a submission. -/
theorem projects_submit (c : Context) (command : String) :
    Effect.Projects (Prod.map Recorded.world id) (Renderer.submit (W := Recorded W) c command)
      (Renderer.submit c command) := by
  rintro ⟨w, r⟩
  cases hc : c.position with
  | fixed point =>
    have h := recorded_submit (Renderer.source c) (r.renderAt c point command) w
    simp only [Prod.map, id, Renderer.submit_fixed hc, h, mapState_mapState]
    rfl
  | bound id =>
    have h := projects_submitMarked id (Renderer.marker r.markerStem r.nextMarker)
      (Renderer.source c) (r.renderNext w c id command) w
    simp only [Prod.map, Renderer.submit_bound hc, mapState_mapState]
    refine (congrArg (mapState (·, r.advanced 1)) h).trans ?_
    rw [mapState_mapState]
    rfl

end

end CommandChain
