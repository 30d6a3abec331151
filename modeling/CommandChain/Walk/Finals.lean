import CommandChain.Walk

/-!
# Walks pulled to their end

`Walk.finals` pulls the steps of a walk from one world and keeps the contexts with
which branches end.

How many steps there are shows only while they are pulled: a subcommand may make any
number of contexts, and may be applied to a world that nobody has seen before. Still
every walk comes to an end (`wellFounded_follows`). A branch goes on to later
subcommands only, and a frame is taken up again once the branches above it have come
to their ends, with one context fewer.
-/

namespace CommandChain

/-- The context with which a step ends its branch. -/
def Step.reached? (s : Step) : Option Context := if s.isFinal then s.context else none

theorem Chain.drop_succ {chain : Chain} {index : Nat} {s : Subcommand} {rest : List Subcommand}
    (hdrop : chain.subcommands.drop index = s :: rest) :
    chain.subcommands.drop (index + 1) = rest := by
  rw [← List.tail_drop, hdrop, List.tail_cons]

namespace Walk

variable {W : Type} [WorldView W] {chain : Chain} {frames : List Frame}

/-- The walk between two pulls, above some frames. -/
def above (chain : Chain) (frames : List Frame) (random : Random) : Walk :=
  ⟨chain, frames, none, random⟩

theorem resume_push_cons {s : Subcommand} {rest : List Subcommand} {index : Nat}
    (hdrop : chain.subcommands.drop index = s :: rest) (world : W) (child : Context)
    (children : List Context) (random : Random) :
    resume world (above chain (push index (child :: children) frames) random) =
      arrive s rest.isEmpty index child (descend world rest (index + 1) child)
        (above chain (push index children frames) random) := by
  simp [resume, push, next?, above, hdrop]

/-- A frame without contexts is passed over. -/
theorem resume_frame_nil (world : W) (index : Nat) (random : Random) :
    resume world (above chain (⟨index, []⟩ :: frames) random) =
      resume world (above chain frames random) := by
  simp only [resume, above, next?]

/-- Nothing is made by a subcommand that the chain does not have. -/
theorem resume_beyond {index : Nat} (hdrop : chain.subcommands.drop index = []) (world : W)
    (child : Context) (children : List Context) (random : Random) :
    resume world (above chain (⟨index, child :: children⟩ :: frames) random) =
      .ok none (above chain [] random) := by
  simp [resume, next?, above, hdrop]

/-! ## Every walk ends -/

/-- `w'` is left when a step is pulled from `w`, in whatever world. -/
def Follows (W : Type) [WorldView W] (w' w : Walk) : Prop :=
  ∃ (world : W) (step : Step), pull world w = .ok (some step) w'

/-- Only finitely many steps can be pulled, each from any world. -/
def Ends (W : Type) [WorldView W] (w : Walk) : Prop := Acc (Follows W) w

theorem Ends.intro {w : Walk}
    (h : ∀ (world : W) (step : Step) (w' : Walk), pull world w = .ok (some step) w' → Ends W w') :
    Ends W w :=
  ⟨w, fun w' ⟨world, step, hp⟩ => h world step w' hp⟩

/-- With nothing above them, the frames come to an end. -/
def FramesEnd (W : Type) [WorldView W] (chain : Chain) (frames : List Frame) : Prop :=
  ∀ random, Ends W (above chain frames random)

/-- A descent to the subcommands in `rest` comes to an end, above any frames that do. -/
def DescentEnds (W : Type) [WorldView W] (chain : Chain) (rest : List Subcommand)
    (index : Nat) : Prop :=
  ∀ frames, FramesEnd W chain frames → ∀ (c : Context) (world : W) random step w',
    descend world rest index c (above chain frames random) = .ok (some step) w' → Ends W w'

section

variable {s : Subcommand} {rest : List Subcommand} {index : Nat}

theorem DescentEnds.arrive (h : DescentEnds W chain rest (index + 1))
    (hdrop : chain.subcommands.drop index = s :: rest) (hframes : FramesEnd W chain frames)
    {child : Context} {world : W} {random : Random} {step : Step} {w' : Walk}
    (ha : arrive s rest.isEmpty index child (descend world rest (index + 1) child)
      (above chain frames random) = .ok (some step) w') : Ends W w' := by
  have hrest := Chain.drop_succ hdrop
  cases rest with
  | nil =>
    cases ha
    exact hframes random
  | cons next rest =>
    simp only [Walk.arrive, List.isEmpty_cons, Bool.false_eq_true, if_false] at ha
    by_cases hf : s.isFork
    · rw [if_pos hf] at ha
      cases ha
      refine .intro fun world' step' w' hp => ?_
      simp only [pull, above, hrest] at hp
      exact h frames hframes child world' random step' w' hp
    · rw [if_neg hf] at ha
      exact h frames hframes child world random step w' ha

/-- A further frame comes to its end as its contexts are used up. -/
theorem DescentEnds.push (h : DescentEnds W chain rest (index + 1))
    (hdrop : chain.subcommands.drop index = s :: rest) (hframes : FramesEnd W chain frames)
    (children : List Context) : FramesEnd W chain (push index children frames) := by
  induction children with
  | nil => exact hframes
  | cons child children ih =>
    refine fun random => .intro fun world step w' hp => ?_
    rw [pull, above] at hp
    exact h.arrive hdrop ih ((resume_push_cons hdrop world child children random).symm.trans hp)

end

/-- The induction is on the subcommands to come: those that a branch goes on to. -/
theorem descentEnds_drop (rest : List Subcommand) (index : Nat)
    (hdrop : chain.subcommands.drop index = rest) : DescentEnds W chain rest index := by
  induction rest generalizing index with
  | nil =>
    rintro frames hframes c world random step w' ⟨⟩
    exact hframes random
  | cons s rest ih =>
    intro frames hframes c world random step w' hd
    have hrest : DescentEnds W chain rest (index + 1) :=
      ih (index + 1) (Chain.drop_succ hdrop)
    simp only [descend, above] at hd
    cases ha : s.applyAt index world c random with
    | error e random' =>
      rw [ha] at hd
      cases hd
    | ok children random' =>
      rw [ha] at hd
      cases children with
      | nil =>
        cases hd
        exact hframes random'
      | cons child children => exact hrest.arrive hdrop (hrest.push hdrop hframes children) hd

theorem framesEnd (frames : List Frame) : FramesEnd W chain frames := by
  induction frames with
  | nil => exact fun random => .intro fun world step w' hp => nomatch hp
  | cons frame frames ih =>
    obtain ⟨index, children⟩ := frame
    cases children with
    | nil =>
      refine fun random => .intro fun world step w' hp => (ih random).inv ⟨world, step, ?_⟩
      exact (resume_frame_nil world index random).symm.trans hp
    | cons child children =>
      cases hdrop : chain.subcommands.drop index with
      | nil =>
        refine fun random => .intro fun world step w' hp => ?_
        exact nomatch (resume_beyond hdrop world child children random).symm.trans hp
      | cons s rest =>
        have hrest : DescentEnds W chain rest (index + 1) :=
          descentEnds_drop rest (index + 1) (Chain.drop_succ hdrop)
        exact hrest.push hdrop ih (child :: children)

/-- No walk can be pulled for ever, even if every step is pulled from another world. -/
theorem wellFounded_follows : WellFounded (Follows W) := by
  refine ⟨fun ⟨chain, frames, pending, random⟩ => ?_⟩
  cases pending with
  | none => exact framesEnd frames random
  | some next =>
    refine Ends.intro fun world step w' hp => ?_
    exact descentEnds_drop (chain.subcommands.drop next.2) next.2 rfl frames (framesEnd frames)
      next.1 world random step w' hp

/-- The contexts with which the branches of a walk end, all of them pulled from one
world, or the first error. -/
def finals (world : W) (w : Walk) : Except Error (List Context) :=
  match h : pull world w with
  | .ok none _ => .ok []
  | .ok (some step) w' =>
    have : Follows W w' w := ⟨world, step, h⟩
    (finals world w').map (step.reached?.toList ++ ·)
  | .error e _ => .error e
termination_by (wellFounded_follows (W := W)).wrap w

section

variable {world : W} {w w' : Walk}

theorem finals_of_over (h : pull world w = .ok none w') : finals world w = .ok [] := by
  rw [finals]
  split <;> simp_all

theorem finals_of_step {step : Step} (h : pull world w = .ok (some step) w') :
    finals world w = (finals world w').map (step.reached?.toList ++ ·) := by
  rw [finals]
  split <;> simp_all

theorem finals_of_error {e : Error} (h : pull world w = .error e w') :
    finals world w = .error e := by
  rw [finals]
  split <;> simp_all

end

end Walk

end CommandChain
