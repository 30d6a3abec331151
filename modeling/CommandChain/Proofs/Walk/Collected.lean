import CommandChain.Proofs.Runner
import CommandChain.Proofs.Subcommand.Drawing
import CommandChain.Proofs.Walk.Driven
import CommandChain.Proofs.World.Operation
import CommandChain.Chain.Parser

/-!
# Collected contexts

`Runner.collect` pulls a walk to its end, with a random source split off the runner's.
It returns the contexts that a run from this source visits, and those that a run of the
runner itself visits if no selector of the chain is of random order:
`collect_eq_visited`.

With a selector of random order the two may differ (`collect_picks_other_cow`), because
the run draws from the runner's own source.
-/

namespace CommandChain

variable {W : Type} [WorldView W]

theorem Walk.descend_pair {α : Type} (world : W) (a : α) (rest : List Subcommand) (index : Nat)
    (c : Context) : descend (world, a) rest index c = descend world rest index c := by
  induction rest generalizing index c with
  | nil => rfl
  | cons s rest ih =>
    funext w
    simp only [descend, applyAt_pair, ih]

/-- A world paired with anything else is walked like the world alone. -/
theorem Walk.pull_pair {α : Type} (world : W) (a : α) (w : Walk) :
    pull (world, a) w = pull world w := by
  simp only [pull, resume, descend_pair]

/-- Driving on while noting contexts down comes to these contexts, or to this error. -/
def DrivenTo (world : W) (pulled : EStateM.Result Error Walk (Option Step))
    (noted : List Context) : Except Error (List Context) → Prop
  | .ok contexts => ∃ visits random, Driven Runner.note pulled (world, noted) visits
      (.ok contexts.length ((world, noted ++ contexts), random))
  | .error e => ∃ visits noted' random, Driven Runner.note pulled (world, noted) visits
      (.error e ((world, noted'), random))

theorem DrivenTo.further {world : W} {step : Step} {w : Walk} {noted : List Context}
    {r : Except Error (List Context)}
    (h : DrivenTo world (Walk.pull world w) (noted ++ step.reached?.toList) r) :
    DrivenTo world (.ok (some step) w) noted (r.map (step.reached?.toList ++ ·)) := by
  cases hs : step.reached? with
  | none =>
    rw [hs, Option.toList_none, List.append_nil, ← Walk.pull_pair world noted] at h
    cases r with
    | error e =>
      obtain ⟨visits, noted', random, h⟩ := h
      exact ⟨visits, noted', random, .passed hs h⟩
    | ok contexts =>
      obtain ⟨visits, random, h⟩ := h
      exact ⟨visits, random, .passed hs h⟩
  | some c =>
    rw [hs, Option.toList_some, ← Walk.pull_pair world (noted ++ [c])] at h
    cases r with
    | error e =>
      obtain ⟨visits, noted', random, h⟩ := h
      exact ⟨⟨(world, noted), c⟩ :: visits, noted', random, .ran hs rfl h⟩
    | ok contexts =>
      obtain ⟨visits, random, h⟩ := h
      have hnote : Runner.note c (world, noted) = .ok () (world, noted ++ [c]) := rfl
      have hran := Driven.ran hs hnote h
      rw [afterRuns, Nat.add_comm, List.append_assoc] at hran
      exact ⟨_, random, hran⟩

/-- Driving a walk while noting contexts down comes to what `finals` returns. -/
theorem drivenTo_finals (world : W) (w : Walk) (noted : List Context) :
    DrivenTo world (Walk.pull world w) noted (w.finals world) := by
  induction w using (Walk.wellFounded_follows (W := W)).induction generalizing noted with
  | _ w ih =>
    cases hp : Walk.pull world w with
    | error e w' =>
      rw [Walk.finals_of_error hp]
      exact ⟨[], noted, w'.random, .stepFailed⟩
    | ok step w' =>
      cases step with
      | none =>
        rw [Walk.finals_of_over hp]
        exact ⟨[], w'.random, (List.append_nil noted).symm ▸ .ended⟩
      | some step =>
        rw [Walk.finals_of_step hp]
        exact (ih w' ⟨world, step, hp⟩ _).further

namespace Runner

/-- The runner, drawing from the source that it splits off. -/
def split (r : Runner) : Runner := { r with random := r.splitRandom.1 }

/-- What a run that only notes its contexts down comes to. -/
def visited (world : W) (chain : Chain) (root : Context) (r : Runner) :
    Except Error (List Context) :=
  match run chain root note ((world, []), r) with
  | .ok _ ((_, noted), _) => .ok noted
  | .error e _ => .error e

theorem finals_start (world : W) (chain : Chain) (root : Context) (r : Runner) :
    (Walk.start chain root r.random).finals world = visited world chain root r := by
  have h := drivenTo_finals world (.start chain root r.random) []
  obtain ⟨visits, hv, -⟩ := exists_driven note chain root (world, []) r.random
  rw [← Walk.pull_pair world ([] : List Context)] at h
  rw [visited, run_eq]
  cases hf : (Walk.start chain root r.random).finals world with
  | ok contexts =>
    rw [hf] at h
    obtain ⟨visits', random, h⟩ := h
    rw [(h.unique hv).2]
    rfl
  | error e =>
    rw [hf] at h
    obtain ⟨visits', noted, random, h⟩ := h
    rw [(h.unique hv).2]
    rfl

theorem collect_eq (world : W) (chain : Chain) (root : Context) (r : Runner) :
    collect world chain root r =
      Effect.ofExcept (visited world chain root r.split) r.splitRandom.2 := by
  have hwalk : r.walk chain root = (.start chain root r.split.random, r.splitRandom.2) := rfl
  rw [← finals_start]
  simp only [collect, hwalk]
  cases (Walk.start chain root r.split.random).finals world <;> rfl

/-- A run that draws nothing visits the same contexts whatever the random source. -/
theorem visited_congr {chain : Chain} (h : chain.Ordered) (world : W) (root : Context)
    (r r' : Runner) : visited world chain root r = visited world chain root r' := by
  obtain ⟨result, hresult⟩ := h.exists_visit root note (world, ([] : List Context))
  simp only [visited, run_eq, hresult]
  cases result <;> rfl

/-- Collecting gives the contexts that a run visits from the source split off, or its
error. They are those of a run from the runner itself if no selector of the chain is of
random order. -/
theorem collect_eq_visited (world : W) (chain : Chain) (root : Context) (r : Runner) :
    collect world chain root r =
        Effect.ofExcept (visited world chain root r.split) r.splitRandom.2 ∧
      (chain.Ordered → collect world chain root r =
        Effect.ofExcept (visited world chain root r) r.splitRandom.2) := by
  refine ⟨collect_eq world chain root r, fun h => ?_⟩
  rw [collect_eq, visited_congr h world root r.split r]

/-- `@e` is ordered by distance. -/
example : (Chain.parse .standard [.fork .at "@e"]).toOption.any fun chain => chain.Ordered := by
  decide +kernel

/-- Of four cows, collecting comes to another one than a run from the same runner. -/
theorem collect_picks_other_cow :
    let cow := Entity.ofType "cow"
    let w := (World.perform [.spawn cow, .spawn cow, .spawn cow, .spawn cow]).2
    let root := Context.atPoint ⟨0, .server⟩ .overworld .zero
    let r := ofSettings .standard
    ∃ chain contexts contexts' r',
      Chain.parse .standard [.fork .as "@r[type=cow]"] = .ok chain ∧
      collect w chain root r = .ok contexts r' ∧ visited w chain root r = .ok contexts' ∧
      contexts.map (·.executor) = [some ⟨3, 1⟩] ∧ contexts'.map (·.executor) = [some ⟨1, 1⟩] := by
  intro cow w root r
  have hall : (Chain.parse .standard [.fork .as "@r[type=cow]"]).toOption.any fun chain =>
      (visited w chain root r.split).toOption.any (·.map (·.executor) = [some ⟨3, 1⟩]) &&
      (visited w chain root r).toOption.any (·.map (·.executor) = [some ⟨1, 1⟩]) := by
    decide +kernel
  obtain ⟨chain, hchain, hboth⟩ := exists_ok_of_any hall
  obtain ⟨hsplit, hrun⟩ := Bool.and_eq_true_iff.1 hboth
  obtain ⟨contexts, hcollected, hpicked⟩ := exists_ok_of_any hsplit
  obtain ⟨contexts', hvisited, hpicked'⟩ := exists_ok_of_any hrun
  refine ⟨chain, contexts, contexts', r.splitRandom.2, hchain, ?_, hvisited,
    of_decide_eq_true hpicked, of_decide_eq_true hpicked'⟩
  rw [collect_eq, hcollected]
  rfl

end Runner

end CommandChain
