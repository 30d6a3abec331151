import CommandChain.Proofs.Chain.Invariant
import CommandChain.Walk.Finals

/-!
# Driven walks

A walk is driven by pulling step after step, each from the world as it is by
then, and running an action whenever a pulled step ends a branch with a context
(`Driven`). Driving ends with the walk, or with the first error of a step or of
the action.

Driving does what the eager visit does, also if the action changes the world:
`driven_iff_visit`. The frames of a walk are what is left of the visits that
surround the current branch, so the induction is on the subcommands to come, for
any frames below (`GoesOn`).
-/

namespace CommandChain

variable {W : Type} [WorldView W]

/-- The result of a visit with `n` more runs of the action before it. -/
def afterRuns {σ : Type} (n : Nat) : EStateM.Result Error σ Nat → EStateM.Result Error σ Nat
  | .ok m s => .ok (n + m) s
  | .error e s => .error e s

/-- Driving on from what a pull from `world` gave runs the action as in `visits`
and comes to `ending`: the number of runs or the error, with the last world and
the random source. -/
inductive Driven (action : Context → Effect W Unit) :
    EStateM.Result Error Walk (Option Step) → W → List (Visit W) →
      EStateM.Result Error (W × Random) Nat → Prop where
  | ended {walk : Walk} {world : W} :
      Driven action (.ok none walk) world [] (.ok 0 (world, walk.random))
  | stepFailed {e : Error} {walk : Walk} {world : W} :
      Driven action (.error e walk) world [] (.error e (world, walk.random))
  | passed {step : Step} {walk : Walk} {world : W} {visits : List (Visit W)}
      {ending : EStateM.Result Error (W × Random) Nat} :
      step.reached? = none → Driven action (Walk.pull world walk) world visits ending →
      Driven action (.ok (some step) walk) world visits ending
  | ran {step : Step} {walk : Walk} {world world' : W} {c : Context} {visits : List (Visit W)}
      {ending : EStateM.Result Error (W × Random) Nat} :
      step.reached? = some c → action c world = .ok () world' →
      Driven action (Walk.pull world' walk) world' visits ending →
      Driven action (.ok (some step) walk) world (⟨world, c⟩ :: visits) (afterRuns 1 ending)
  | runFailed {step : Step} {walk : Walk} {world world' : W} {c : Context} {e : Error} :
      step.reached? = some c → action c world = .error e world' →
      Driven action (.ok (some step) walk) world [⟨world, c⟩] (.error e (world', walk.random))

section

variable {action : Context → Effect W Unit}

/-- A walk can be driven in one way only. -/
theorem Driven.unique {pulled : EStateM.Result Error Walk (Option Step)} {world : W}
    {visits visits' : List (Visit W)} {ending ending' : EStateM.Result Error (W × Random) Nat}
    (h : Driven action pulled world visits ending)
    (h' : Driven action pulled world visits' ending') : visits' = visits ∧ ending' = ending := by
  induction h generalizing visits' ending' with
  | ended => cases h'; exact ⟨rfl, rfl⟩
  | stepFailed => cases h'; exact ⟨rfl, rfl⟩
  | passed hs _ ih =>
    cases h' with
    | passed _ h' => exact ih h'
    | ran hs' => simp [hs] at hs'
    | runFailed hs' => simp [hs] at hs'
  | ran hs ha _ ih =>
    cases h' with
    | passed hs' => simp [hs] at hs'
    | ran hs' ha' h' =>
      obtain rfl : _ = _ := Option.some.inj (hs.symm.trans hs')
      obtain rfl : _ = _ := (EStateM.Result.ok.inj (ha.symm.trans ha')).2
      obtain ⟨rfl, rfl⟩ := ih h'
      exact ⟨rfl, rfl⟩
    | runFailed hs' ha' =>
      obtain rfl : _ = _ := Option.some.inj (hs.symm.trans hs')
      simp [ha] at ha'
  | runFailed hs ha =>
    cases h' with
    | passed hs' => simp [hs] at hs'
    | ran hs' ha' =>
      obtain rfl : _ = _ := Option.some.inj (hs.symm.trans hs')
      simp [ha] at ha'
    | runFailed hs' ha' =>
      obtain rfl : _ = _ := Option.some.inj (hs.symm.trans hs')
      obtain ⟨rfl, rfl⟩ := EStateM.Result.error.inj (ha.symm.trans ha')
      exact ⟨rfl, rfl⟩

/-! ## Branches above frames -/

/-- Driving on from `pulled` does what a visit did that started with `notes` and
`count` and had this result: after an error it ends, and otherwise it goes on
with the frames. -/
def GoesOn (action : Context → Effect W Unit) (chain : Chain) (frames : List Frame)
    (pulled : EStateM.Result Error Walk (Option Step)) (world : W) (notes : List (Visit W))
    (count : Nat) : EStateM.Result Error ((W × List (Visit W)) × Random) Nat → Prop
  | .error e ((world', notes'), random) => ∃ visits, notes' = notes ++ visits ∧
      Driven action pulled world visits (.error e (world', random))
  | .ok n ((world', notes'), random) => ∃ visits runs, notes' = notes ++ visits ∧
      n = count + runs ∧ ∀ later ending,
        Driven action (Walk.resume world' (.above chain frames random)) world' later ending →
        Driven action pulled world (visits ++ later) (afterRuns runs ending)

variable {chain : Chain} {frames : List Frame}

theorem afterRuns_zero {σ : Type} (r : EStateM.Result Error σ Nat) : afterRuns 0 r = r := by
  cases r <;> simp [afterRuns]

theorem afterRuns_afterRuns {σ : Type} (m n : Nat) (r : EStateM.Result Error σ Nat) :
    afterRuns m (afterRuns n r) = afterRuns (m + n) r := by
  cases r <;> simp [afterRuns, Nat.add_assoc]

theorem GoesOn.passed {pulled : EStateM.Result Error ((W × List (Visit W)) × Random) Nat}
    {step : Step} {walk : Walk} {world : W} {notes : List (Visit W)} {count : Nat}
    (hs : step.reached? = none)
    (h : GoesOn action chain frames (Walk.pull world walk) world notes count pulled) :
    GoesOn action chain frames (.ok (some step) walk) world notes count pulled := by
  cases pulled with
  | error e state =>
    obtain ⟨visits, hn, h⟩ := h
    exact ⟨visits, hn, .passed hs h⟩
  | ok n state =>
    obtain ⟨visits, runs, hn, hc, h⟩ := h
    exact ⟨visits, runs, hn, hc, fun later ending hl => .passed hs (h later ending hl)⟩

/-- Two branches, the second of them above other frames. -/
theorem GoesOn.andThen {frames' : List Frame} {pulled : EStateM.Result Error Walk (Option Step)}
    {world world' : W} {notes notes' : List (Visit W)} {count n : Nat} {random : Random}
    {r : EStateM.Result Error ((W × List (Visit W)) × Random) Nat}
    (h : GoesOn action chain frames' pulled world notes 0 (.ok n ((world', notes'), random)))
    (h' : GoesOn action chain frames (Walk.resume world' (.above chain frames' random)) world'
      notes' (count + n) r) :
    GoesOn action chain frames pulled world notes count r := by
  obtain ⟨visits, runs, rfl, rfl, h⟩ := h
  cases r with
  | error e state =>
    obtain ⟨later, hn, h'⟩ := h'
    exact ⟨visits ++ later, by rw [hn, List.append_assoc], h later _ h'⟩
  | ok total state =>
    obtain ⟨later, runs', hn, hc, h'⟩ := h'
    refine ⟨visits ++ later, runs + runs', by rw [hn, List.append_assoc], by omega, ?_⟩
    intro last ending hl
    have := h _ _ (h' last ending hl)
    rwa [afterRuns_afterRuns, ← List.append_assoc] at this

/-- The frames themselves, with nothing above them. -/
theorem goesOn_resume (world : W) (notes : List (Visit W)) (count : Nat) (random : Random) :
    GoesOn action chain frames (Walk.resume world (.above chain frames random)) world notes count
      (.ok count ((world, notes), random)) := by
  refine ⟨[], 0, by simp, rfl, fun later ending h => ?_⟩
  rw [afterRuns_zero]
  exact h

/-- The action runs on a context that ends its branch. -/
theorem goesOn_reached (s : Option Subcommand) (index : Nat) (c : Context) (world : W)
    (notes : List (Visit W)) (random : Random) :
    GoesOn action chain frames
      (.ok (some ((Walk.above chain frames random).finalStep c s index))
        (.above chain frames random)) world notes 0
      (visit (noting action) [] index c ((world, notes), random)) := by
  rw [visit_nil, noting]
  cases ha : action c world with
  | ok u world' => exact ⟨[⟨world, c⟩], 1, rfl, rfl, fun later ending h => .ran rfl ha h⟩
  | error e world' => exact ⟨[⟨world, c⟩], rfl, .runFailed rfl ha⟩

/-! ## The induction on the subcommands to come -/

/-- A descent to the subcommands in `rest` does what a visit does, above any frames. -/
def Descends (action : Context → Effect W Unit) (chain : Chain) (rest : List Subcommand)
    (index : Nat) : Prop :=
  ∀ (frames : List Frame) (c : Context) (world : W) (notes : List (Visit W)) (random : Random),
    GoesOn action chain frames
      (Walk.descend world rest index c (.above chain frames random)) world notes 0
      (visit (noting action) rest index c ((world, notes), random))

section

variable {s : Subcommand} {rest : List Subcommand} {index : Nat}

theorem Descends.arrive (h : Descends action chain rest (index + 1))
    (hdrop : chain.subcommands.drop index = s :: rest) (frames : List Frame) (child : Context)
    (world : W) (notes : List (Visit W)) (random : Random) :
    GoesOn action chain frames
      (Walk.arrive s rest.isEmpty index child (Walk.descend world rest (index + 1) child)
        (.above chain frames random)) world notes 0
      (visit (noting action) rest (index + 1) child ((world, notes), random)) := by
  have hrest := Chain.drop_succ hdrop
  cases rest with
  | nil => exact goesOn_reached s index child world notes random
  | cons next rest =>
    simp only [Walk.arrive, List.isEmpty_cons, Bool.false_eq_true, if_false]
    by_cases hf : s.isFork
    · rw [if_pos hf]
      refine .passed rfl ?_
      simp only [Walk.pull, Walk.above, hrest]
      exact h frames child world notes random
    · rw [if_neg hf]
      exact h frames child world notes random

theorem Descends.each (h : Descends action chain rest (index + 1))
    (hdrop : chain.subcommands.drop index = s :: rest) (child : Context)
    (children : List Context) (count : Nat) (world : W) (notes : List (Visit W))
    (random : Random) :
    GoesOn action chain frames
      (Walk.arrive s rest.isEmpty index child (Walk.descend world rest (index + 1) child)
        (.above chain (Walk.push index children frames) random)) world notes count
      (visitEach (noting action) rest (index + 1) count (child :: children)
        ((world, notes), random)) := by
  induction children generalizing child count world notes random with
  | nil =>
    rw [visitEach_cons]
    have hc := h.arrive hdrop frames child world notes random
    cases hv : visit (noting action) rest (index + 1) child ((world, notes), random) with
    | error e state => rw [hv] at hc; exact hc
    | ok n state =>
      rw [hv] at hc
      exact hc.andThen (goesOn_resume state.1.1 state.1.2 (count + n) state.2)
  | cons child' children ih =>
    rw [visitEach_cons]
    have hc := h.arrive hdrop (Walk.push index (child' :: children) frames) child world notes random
    cases hv : visit (noting action) rest (index + 1) child ((world, notes), random) with
    | error e state => rw [hv] at hc; exact hc
    | ok n state =>
      rw [hv] at hc
      refine hc.andThen ?_
      rw [Walk.resume_push_cons hdrop]
      exact ih child' (count + n) state.1.1 state.1.2 state.2

end

/-- A descent from any subcommand of the chain does what a visit does. -/
theorem descends_drop (rest : List Subcommand) (index : Nat)
    (hdrop : chain.subcommands.drop index = rest) : Descends action chain rest index := by
  induction rest generalizing index with
  | nil => exact fun frames c world notes random => goesOn_reached none index c world notes random
  | cons s rest ih =>
    intro frames c world notes random
    have hrest : Descends action chain rest (index + 1) :=
      ih (index + 1) (Chain.drop_succ hdrop)
    rw [visit_cons, applyAt_pair]
    simp only [Walk.descend, Walk.above]
    cases s.applyAt index world c random with
    | error e random' => exact ⟨[], by simp, .stepFailed⟩
    | ok children random' =>
      cases children with
      | nil => exact .passed rfl (goesOn_resume world notes 0 random')
      | cons child children => exact hrest.each hdrop child children 0 world notes random'

end

/-- The result of a visit, with notes beside the world. -/
def withNotes {σ α ν : Type} (notes : ν) :
    EStateM.Result Error (W × σ) α → EStateM.Result Error ((W × ν) × σ) α
  | .ok a (world, s) => .ok a ((world, notes), s)
  | .error e (world, s) => .error e ((world, notes), s)

/-- A driven walk does what the eager visit does. -/
theorem exists_driven (action : Context → Effect W Unit) (chain : Chain) (root : Context)
    (world : W) (random : Random) :
    ∃ visits : List (Visit W),
      Driven action (Walk.pull world (.start chain root random)) world visits
        (chain.visit root action (world, random)) ∧
      chain.visit root (noting action) ((world, []), random) =
        withNotes visits (chain.visit root action (world, random)) := by
  have hchain : Descends action chain chain.subcommands 0 := descends_drop chain.subcommands 0 rfl
  have h := hchain [] root world [] random
  have hn := visit_noting action chain.subcommands 0 root world [] random
  have hp : Walk.pull world (.start chain root random) =
      Walk.descend world chain.subcommands 0 root (.above chain [] random) := rfl
  rw [hp]
  unfold Chain.visit
  rw [← hn]
  cases hv : visit (noting action) chain.subcommands 0 root ((world, []), random) with
  | error e state =>
    rw [hv] at h
    obtain ⟨visits, hnotes, h⟩ := h
    exact ⟨visits, h, by rw [← List.nil_append visits, ← hnotes]; rfl⟩
  | ok n state =>
    rw [hv] at h
    obtain ⟨visits, runs, hnotes, hruns, h⟩ := h
    -- nothing is left below the first branch
    have hover := h [] (.ok 0 (state.1.1, state.2)) .ended
    rw [List.append_nil, afterRuns, Nat.add_zero, ← Nat.zero_add runs, ← hruns] at hover
    exact ⟨visits, hover, by rw [← List.nil_append visits, ← hnotes]; rfl⟩

/-- A walk can be driven in exactly one way, and this is the eager visit: the
action runs on the same contexts from the same worlds, and the count or the
error, the last world and the random source are the same. -/
theorem driven_iff_visit (action : Context → Effect W Unit) (chain : Chain) (root : Context)
    (world : W) (random : Random) :
    ∃ visits : List (Visit W),
      chain.visit root (noting action) ((world, []), random) =
        withNotes visits (chain.visit root action (world, random)) ∧
      ∀ notes ending,
        Driven action (Walk.pull world (.start chain root random)) world notes ending ↔
          notes = visits ∧ ending = chain.visit root action (world, random) := by
  obtain ⟨visits, hd, hn⟩ := exists_driven action chain root world random
  refine ⟨visits, hn, fun notes ending => ⟨fun h => hd.unique h, ?_⟩⟩
  rintro ⟨rfl, rfl⟩
  exact hd

end CommandChain
