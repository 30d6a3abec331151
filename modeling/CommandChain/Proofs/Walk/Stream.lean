import CommandChain.Chain.Parser
import CommandChain.Proofs.Subcommand.Failure
import CommandChain.Proofs.Walk.Course
import CommandChain.Proofs.World.Operation

/-!
# The steps of a walk by recursion

`traverse` says without frames what a walk gives when it is pulled from one world until
it is over: a subcommand is applied, and for each context that it makes there are the
steps of that branch, one branch after the other. The random source is handed from each
to the next.

A walk keeps part of such a recursion in its frames: the contexts not visited yet, of
several subcommands at once. `Walk.remaining` is what is still to come of it, and a pull
takes the first result off that (`Sound.takesOff`). So the results of all pulls are those
of the recursion: `yields_start_iff`.
-/

namespace CommandChain

/-- Steps, up to an error if there is one, and the random source left. -/
structure Traversal where
  steps : List Step
  error : Option Error
  random : Random

namespace Traversal

/-- No step. -/
def empty (random : Random) : Traversal := ⟨[], none, random⟩

/-- An error before any step. -/
def failed (e : Error) (random : Random) : Traversal := ⟨[], some e, random⟩

def cons (step : Step) (t : Traversal) : Traversal := { t with steps := step :: t.steps }

/-- A single step. -/
def single (step : Step) (random : Random) : Traversal := (empty random).cons step

/-- Goes on after the steps, unless there was an error. -/
def andThen (t : Traversal) (next : Random → Traversal) : Traversal :=
  match t.error with
  | some _ => t
  | none => { next t.random with steps := t.steps ++ (next t.random).steps }

/-- The steps and then the error. -/
def results (t : Traversal) : List (Except Error Step) :=
  t.steps.map .ok ++ t.error.toList.map .error

section

variable (step : Step) (e : Error) (random : Random) (t : Traversal) (next : Random → Traversal)

@[simp] theorem failed_andThen : (failed e random).andThen next = failed e random := rfl

@[simp] theorem cons_andThen : (t.cons step).andThen next = (t.andThen next).cons step := by
  obtain ⟨steps, _ | e, random⟩ := t <;> rfl

@[simp] theorem single_andThen : (single step random).andThen next = (next random).cons step := rfl

theorem andThen_assoc (next' : Random → Traversal) :
    (t.andThen next).andThen next' = t.andThen fun random => (next random).andThen next' := by
  obtain ⟨steps, _ | e, random⟩ := t
  · unfold andThen
    cases h : (next random).error <;> simp [h]
  · rfl

theorem andThen_empty : t.andThen empty = t := by
  obtain ⟨steps, _ | e, random⟩ := t
  · simp only [andThen, empty, List.append_nil]
  · rfl

@[simp] theorem results_empty : (empty random).results = [] := rfl

@[simp] theorem results_failed : (failed e random).results = [.error e] := rfl

@[simp] theorem results_cons : (t.cons step).results = .ok step :: t.results := rfl

end

end Traversal

/-! ## The recursion -/

/-- What comes of one context after the other; `isLast` if nothing comes after them. -/
def traverseEach (visit : Bool → Context → Random → Traversal) (isLast : Bool) :
    List Context → Random → Traversal
  | [], random => .empty random
  | child :: children, random =>
    (visit (isLast && children.isEmpty) child random).andThen
      (traverseEach visit isLast children)

/-- What comes of a context that `s` has made as number `index`: a step that ends the
branch if `s` is the last of the chain, and otherwise what comes `onward`, behind a step
if `s` is a fork. -/
def traverseChild (s : Subcommand) (isEnd : Bool) (index : Nat)
    (onward : Bool → Context → Random → Traversal) (isLast : Bool) (child : Context)
    (random : Random) : Traversal :=
  if isEnd then .single ⟨some child, some s, index, true, isLast⟩ random
  else if s.isFork then
    (Traversal.single ⟨some child, some s, index, false, false⟩ random).andThen
      (onward isLast child)
  else onward isLast child random

/-- What comes of `c` if subcommands are applied to it, the first of them being number
`index`; `isLast` if nothing comes after it. -/
def traverse {W : Type} [WorldView W] (world : W) :
    List Subcommand → Nat → Bool → Context → Random → Traversal
  | [], index, isLast, c, random => .single ⟨some c, none, index, true, isLast⟩ random
  | s :: rest, index, isLast, c, random =>
    match s.apply world c random with
    | .error e random => .failed ⟨e.fault, some ⟨some (toString s), some index⟩⟩ random
    | .ok [] random => .single ⟨none, some s, index, true, isLast⟩ random
    | .ok children random =>
      traverseEach (traverseChild s rest.isEmpty index (traverse world rest (index + 1))) isLast
        children random

section

variable {W : Type} [WorldView W] {world : W}

/-- What comes of a context that the first of some subcommands has made. -/
def traverseMade (world : W) : List Subcommand → Nat → Bool → Context → Random → Traversal
  | [], _ => fun _ _ random => .empty random
  | s :: rest, index => traverseChild s rest.isEmpty index (traverse world rest (index + 1))

variable {s : Subcommand} {rest : List Subcommand} {index : Nat} {isLast : Bool} {c : Context}
  {random random' : Random}

theorem traverse_of_error {e : Error} (h : s.applyAt index world c random = .error e random') :
    traverse world (s :: rest) index isLast c random = .failed e random' := by
  obtain ⟨fault, happly, rfl⟩ := applyAt_eq_error_iff.1 h
  rw [traverse, happly]

theorem traverse_of_none (h : s.applyAt index world c random = .ok [] random') :
    traverse world (s :: rest) index isLast c random =
      .single ⟨none, some s, index, true, isLast⟩ random' := by
  rw [traverse, applyAt_eq_ok_iff.1 h]

theorem traverse_of_made {child : Context} {children : List Context}
    (h : s.applyAt index world c random = .ok (child :: children) random') :
    traverse world (s :: rest) index isLast c random =
      traverseEach (traverseMade world (s :: rest) index) isLast (child :: children) random' := by
  rw [traverse, applyAt_eq_ok_iff.1 h]
  rfl

end

namespace Walk

variable {W : Type} [WorldView W] {chain : Chain} {frames : List Frame} {world : W}

/-! ## What is still to come -/

/-- What comes of the contexts in the frames. -/
def framesTraversal (world : W) (chain : Chain) : List Frame → Random → Traversal
  | [], random => .empty random
  | ⟨index, children⟩ :: frames, random =>
    (traverseEach (traverseMade world (chain.subcommands.drop index) index) frames.isEmpty children
      random).andThen (framesTraversal world chain frames)

/-- What is still to come of a walk that is pulled from that world only. -/
def remaining (world : W) (w : Walk) : Traversal :=
  match w.pending with
  | none => framesTraversal world w.chain w.frames w.random
  | some (c, index) =>
    (traverse world (w.chain.subcommands.drop index) index w.frames.isEmpty c w.random).andThen
      (framesTraversal world w.chain w.frames)

/-- A pull gave the first result of what was to come, and left the others. -/
def TakesOff (world : W) (before : Traversal) : EStateM.Result Error Walk (Option Step) → Prop
  | .ok none w' => before = .empty w'.random
  | .ok (some step) w' => before = (remaining world w').cons step
  | .error e w' => before = .failed e w'.random

theorem isEmpty_push (index : Nat) (children : List Context) (frames : List Frame) :
    (push index children frames).isEmpty = (frames.isEmpty && children.isEmpty) := by
  cases children <;> simp [push]

theorem framesTraversal_push (index : Nat) (children : List Context) (random : Random) :
    framesTraversal world chain (push index children frames) random =
      (traverseEach (traverseMade world (chain.subcommands.drop index) index) frames.isEmpty
        children random).andThen (framesTraversal world chain frames) := by
  cases children <;> rfl

/-- The contexts that were not the first are left to a frame. -/
theorem framesTraversal_cons (index : Nat) (child : Context) (children : List Context)
    (random : Random) :
    (traverseEach (traverseMade world (chain.subcommands.drop index) index) frames.isEmpty
        (child :: children) random).andThen (framesTraversal world chain frames) =
      (traverseMade world (chain.subcommands.drop index) index
        (push index children frames).isEmpty child random).andThen
          (framesTraversal world chain (push index children frames)) := by
  rw [traverseEach, Traversal.andThen_assoc, isEmpty_push, funext (framesTraversal_push _ children)]

theorem takesOff_arrive {s : Subcommand} {rest : List Subcommand} {index : Nat}
    (hdrop : chain.subcommands.drop index = s :: rest) {child : Context} {random : Random}
    {onward : Effect Walk (Option Step)}
    (honward : TakesOff world ((traverse world rest (index + 1) frames.isEmpty child random).andThen
      (framesTraversal world chain frames)) (onward (above chain frames random))) :
    TakesOff world
      ((traverseMade world (chain.subcommands.drop index) index frames.isEmpty child
        random).andThen (framesTraversal world chain frames))
      (arrive s rest.isEmpty index child onward (above chain frames random)) := by
  rw [hdrop, traverseMade]
  unfold traverseChild arrive
  by_cases hend : rest.isEmpty
  · rw [if_pos hend, if_pos hend]
    rfl
  · rw [if_neg hend, if_neg hend]
    by_cases hfork : s.isFork
    · rw [if_pos hfork, if_pos hfork]
      simp only [TakesOff, remaining, above, Chain.drop_succ hdrop, Traversal.single_andThen,
        Traversal.cons_andThen]
    · rw [if_neg hfork, if_neg hfork]
      exact honward

/-- The induction is on the subcommands to come, for any frames below. -/
theorem takesOff_descend (world : W) (rest : List Subcommand) (index : Nat)
    (hdrop : chain.subcommands.drop index = rest) (c : Context) (frames : List Frame)
    (random : Random) :
    TakesOff world ((traverse world rest index frames.isEmpty c random).andThen
      (framesTraversal world chain frames))
      (descend world rest index c (above chain frames random)) := by
  induction rest generalizing index c frames random with
  | nil => rfl
  | cons s rest ih =>
    simp only [descend, above]
    cases ha : s.applyAt index world c random with
    | error e random' =>
      rw [traverse_of_error ha, Traversal.failed_andThen]
      rfl
    | ok children random' =>
      cases children with
      | nil =>
        rw [traverse_of_none ha, Traversal.single_andThen]
        rfl
      | cons child children =>
        rw [traverse_of_made ha, ← hdrop, framesTraversal_cons]
        exact takesOff_arrive hdrop (ih (index + 1) (Chain.drop_succ hdrop) child _ random')

/-- A pull takes the first result off what is to come. -/
theorem Sound.takesOff {w : Walk} (hw : w.Sound) (world : W) :
    TakesOff world (remaining world w) (pull world w) := by
  obtain ⟨chain, frames, pending, random⟩ := w
  cases pending with
  | some next => exact takesOff_descend world _ next.2 rfl next.1 frames random
  | none =>
    cases frames with
    | nil => rfl
    | cons frame frames =>
      have hframes : FramesSound chain (frame :: frames) := hw
      obtain ⟨index, child, children, s, rest, rfl, hdrop, -⟩ := hframes.top
      have hresume : pull world (above chain (⟨index, child :: children⟩ :: frames) random) = _ :=
        resume_push_cons hdrop world child children random
      have hremaining :
          remaining world (above chain (⟨index, child :: children⟩ :: frames) random) = _ :=
        framesTraversal_cons index child children random
      refine hresume.symm ▸ hremaining.symm ▸ takesOff_arrive hdrop ?_
      exact takesOff_descend world rest (index + 1) (Chain.drop_succ hdrop) child _ random

/-! ## All pulls -/

/-- Pulling on from what a pull gave, always from that world and also after an error,
gives these results before the walk is over, and leaves that walk. -/
inductive Yields (world : W) :
    EStateM.Result Error Walk (Option Step) → List (Except Error Step) → Walk → Prop where
  | ended {w : Walk} : Yields world (.ok none w) [] w
  | step {step : Step} {w w' : Walk} {results : List (Except Error Step)} :
    Yields world (pull world w) results w' →
    Yields world (.ok (some step) w) (.ok step :: results) w'
  | error {e : Error} {w w' : Walk} {results : List (Except Error Step)} :
    Yields world (pull world w) results w' →
    Yields world (.error e w) (.error e :: results) w'

/-- A walk can be pulled to its end in one way only. -/
theorem Yields.unique {pulled : EStateM.Result Error Walk (Option Step)}
    {results results' : List (Except Error Step)} {w w' : Walk}
    (h : Yields world pulled results w) (h' : Yields world pulled results' w') :
    results' = results ∧ w' = w := by
  induction h generalizing results' with
  | ended => cases h'; exact ⟨rfl, rfl⟩
  | step _ ih =>
    cases h' with
    | step h' =>
      obtain ⟨rfl, rfl⟩ := ih h'
      exact ⟨rfl, rfl⟩
  | error _ ih =>
    cases h' with
    | error h' =>
      obtain ⟨rfl, rfl⟩ := ih h'
      exact ⟨rfl, rfl⟩

/-- The induction is on the steps that a walk has left, of which there are finitely many. -/
theorem Sound.yields {w : Walk} (hw : w.Sound) (world : W) :
    Yields world (pull world w) (remaining world w).results
      (above w.chain [] (remaining world w).random) := by
  induction w using (wellFounded_follows (W := W)).induction with
  | _ w ih =>
    have htakes := hw.takesOff world
    by_cases hd : w.isDone
    · rw [pull_of_isDone hd] at htakes ⊢
      have hnothing : remaining world w = .empty w.random := htakes
      rw [hnothing, Traversal.results_empty]
      exact above_of_isDone hd ▸ .ended
    · rcases hw.pull_cases hd world with ⟨e, w', hp, hc, hd'⟩ | ⟨step, w', hp, hc, hw', -⟩
      · rw [hp] at htakes ⊢
        have hfailed : remaining world w = .failed e w'.random := htakes
        rw [hfailed, Traversal.results_failed, ← hc]
        refine .error ?_
        rw [pull_of_isDone hd']
        exact above_of_isDone hd' ▸ .ended
      · rw [hp] at htakes ⊢
        have hfirst : remaining world w = (remaining world w').cons step := htakes
        rw [hfirst, Traversal.results_cons, ← hc]
        exact .step (ih w' ⟨world, step, hp⟩ hw')

theorem remaining_start (world : W) (chain : Chain) (root : Context) (random : Random) :
    remaining world (start chain root random) =
      traverse world chain.subcommands 0 true root random :=
  Traversal.andThen_empty _

/-- Whatever the chain, a walk that is pulled from one world until it is over gives the
steps of the recursion, and the error with which these end if there is one, and it leaves
the random source that they leave. -/
theorem yields_start_iff (world : W) (chain : Chain) (root : Context) (random : Random)
    (results : List (Except Error Step)) (w : Walk) :
    Yields world (pull world (start chain root random)) results w ↔
      results = (traverse world chain.subcommands 0 true root random).results ∧
      w = above chain [] (traverse world chain.subcommands 0 true root random).random := by
  have hyields := (sound_start chain root random).yields world
  rw [remaining_start] at hyields
  refine ⟨hyields.unique, ?_⟩
  rintro ⟨rfl, rfl⟩
  exact hyields

/-- A cow and a pig, of which the pig passes the guard. -/
example :
    let w := (World.perform [.spawn (.ofType "cow"), .spawn (.ofType "pig")]).2
    let root := Context.atPoint ⟨0, .server⟩ .overworld .zero
    (Chain.parse .standard [.fork .as "@r[type=!player,c=2]",
        .guard false (.entity "@s[type=pig]")]).toOption.any fun chain =>
      (traverse w chain.subcommands 0 true root (.ofSeed 0)).steps.map
          (fun step => (step.index, step.context.isSome, step.isFinal, step.isLast)) =
        [(0, true, false, false), (1, false, true, false), (0, true, false, false),
          (1, true, true, true)] := by
  decide +kernel

end Walk

end CommandChain
