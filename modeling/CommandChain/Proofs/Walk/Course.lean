import CommandChain.Proofs.Effect
import CommandChain.Walk.Finals
import Mathlib.Data.Nat.Find
import Mathlib.Order.WellFounded

/-!
# The course of a walk

`Walk.after` is a walk after so many pulls, each of them from a world of its own. What
a pull does to a walk is said once (`Sound.advances`): it is over exactly if nothing is
left, and otherwise it gives an error and leaves nothing, or gives a step that is marked
as the last exactly if it leaves nothing.

So the steps before some pull are not the last, this pull gives the last step or an
error, and all later ones give nothing: `course_of_start`.
-/

namespace CommandChain.Walk

variable {W : Type} [WorldView W] {chain : Chain} {frames : List Frame}

/-! ## Sound walks -/

/-- Every frame has contexts left, made by a subcommand of the chain. -/
def FramesSound (chain : Chain) (frames : List Frame) : Prop :=
  ∀ f ∈ frames, f.children ≠ [] ∧ f.index < chain.length

def Sound (w : Walk) : Prop := FramesSound w.chain w.frames

theorem sound_start (chain : Chain) (root : Context) (random : Random) :
    (start chain root random).Sound :=
  nofun

theorem FramesSound.push (h : FramesSound chain frames) {index : Nat}
    (hindex : index < chain.length) (children : List Context) :
    FramesSound chain (push index children frames) := by
  unfold Walk.push
  split
  · exact h
  · next hne =>
    refine List.forall_mem_cons.2 ⟨⟨?_, hindex⟩, h⟩
    rintro rfl
    exact hne rfl

theorem length_of_drop {index : Nat} {s : Subcommand} {rest : List Subcommand}
    (hdrop : chain.subcommands.drop index = s :: rest) :
    chain.length = index + 1 + rest.length := by
  have hlength := congrArg List.length hdrop
  rw [List.length_drop, List.length_cons] at hlength
  unfold Chain.length
  omega

/-! ## One pull -/

/-- Nothing is left after an error, and a step is marked as the last exactly if nothing
is left. -/
def Advances (chain : Chain) : EStateM.Result Error Walk (Option Step) → Prop
  | .ok none _ => False
  | .ok (some step) w' => w'.chain = chain ∧ w'.Sound ∧ step.isLast = w'.isDone
  | .error _ w' => w'.chain = chain ∧ w'.isDone

/-- A branch above sound frames ends. -/
theorem advances_finalStep (h : FramesSound chain frames) (c : Option Context)
    (s : Option Subcommand) (index : Nat) (random : Random) :
    Advances chain (.ok (some ((above chain frames random).finalStep c s index))
      (above chain frames random)) :=
  ⟨rfl, h, rfl⟩

theorem advances_arrive {s : Subcommand} {isLast : Bool} {index : Nat} {child : Context}
    {onward : Effect Walk (Option Step)} {random : Random} (h : FramesSound chain frames)
    (honward : Advances chain (onward (above chain frames random))) :
    Advances chain (arrive s isLast index child onward (above chain frames random)) := by
  unfold arrive
  split
  · exact advances_finalStep h child s index random
  · split
    · exact ⟨rfl, h, rfl⟩
    · exact honward

theorem advances_descend (world : W) (rest : List Subcommand) (index : Nat)
    (hdrop : chain.subcommands.drop index = rest) (c : Context) (h : FramesSound chain frames)
    (random : Random) :
    Advances chain (descend world rest index c (above chain frames random)) := by
  induction rest generalizing index c frames random with
  | nil => exact advances_finalStep h c none index random
  | cons s rest ih =>
    have hrest := Chain.drop_succ hdrop
    simp only [descend, above]
    cases s.applyAt index world c random with
    | error e random' => exact ⟨rfl, rfl⟩
    | ok children random' =>
      cases children with
      | nil => exact advances_finalStep h none s index random'
      | cons child children =>
        have hindex : index < chain.length := by rw [length_of_drop hdrop]; omega
        have hpush := h.push hindex children
        exact advances_arrive hpush (ih (index + 1) hrest child hpush random')

theorem above_of_isDone {w : Walk} (h : w.isDone) : w = above w.chain [] w.random := by
  obtain ⟨chain, frames, pending, random⟩ := w
  cases pending with
  | some next => cases h
  | none =>
    cases frames with
    | cons frame frames => cases h
    | nil => rfl

theorem pull_of_isDone {w : Walk} (h : w.isDone) (world : W) : pull world w = .ok none w := by
  rw [above_of_isDone h]
  rfl

/-- There is a next context, made by a subcommand of the chain. -/
theorem FramesSound.top {frame : Frame} (h : FramesSound chain (frame :: frames)) :
    ∃ index child children s rest, frame = ⟨index, child :: children⟩ ∧
      chain.subcommands.drop index = s :: rest ∧
      FramesSound chain (Walk.push index children frames) := by
  obtain ⟨⟨hne, hindex⟩, hframes⟩ := List.forall_mem_cons.1 h
  obtain ⟨index, children⟩ := frame
  obtain ⟨child, children, rfl⟩ := List.exists_cons_of_ne_nil hne
  obtain ⟨s, rest, hdrop⟩ : ∃ s rest, chain.subcommands.drop index = s :: rest :=
    List.exists_cons_of_ne_nil (mt List.drop_eq_nil_iff.1 (Nat.not_le.2 hindex))
  exact ⟨index, child, children, s, rest, rfl, hdrop, FramesSound.push hframes hindex children⟩

theorem Sound.advances {w : Walk} (hw : w.Sound) (h : ¬ w.isDone) (world : W) :
    Advances w.chain (pull world w) := by
  obtain ⟨chain, frames, pending, random⟩ := w
  cases pending with
  | some next => exact advances_descend world _ next.2 rfl next.1 hw random
  | none =>
    cases frames with
    | nil => exact absurd rfl h
    | cons frame frames =>
      have hframes : FramesSound chain (frame :: frames) := hw
      obtain ⟨index, child, children, s, rest, rfl, hdrop, hpush⟩ := hframes.top
      have hresume : pull world (above chain (⟨index, child :: children⟩ :: frames) random) = _ :=
        resume_push_cons hdrop world child children random
      refine hresume.symm ▸ advances_arrive hpush ?_
      exact advances_descend world rest (index + 1) (Chain.drop_succ hdrop) child hpush random

/-- A pull from a walk that is not over gives an error or a step. -/
theorem Sound.pull_cases {w : Walk} (hw : w.Sound) (h : ¬ w.isDone) (world : W) :
    (∃ e w', pull world w = .error e w' ∧ w'.chain = w.chain ∧ w'.isDone) ∨
      ∃ step w', pull world w = .ok (some step) w' ∧ w'.chain = w.chain ∧ w'.Sound ∧
        step.isLast = w'.isDone := by
  have hadvances := hw.advances h world
  cases hp : pull world w with
  | error e w' =>
    rw [hp] at hadvances
    exact .inl ⟨e, w', rfl, hadvances⟩
  | ok step w' =>
    rw [hp] at hadvances
    cases step with
    | none => exact hadvances.elim
    | some step => exact .inr ⟨step, w', rfl, hadvances⟩

/-- Nothing is pulled exactly if nothing is left. -/
theorem Sound.isDone_iff {w : Walk} (hw : w.Sound) (world : W) :
    w.isDone ↔ ∃ w', pull world w = .ok none w' := by
  refine ⟨fun h => ⟨w, pull_of_isDone h world⟩, fun ⟨w', hp⟩ => ?_⟩
  by_contra hn
  rcases hw.pull_cases hn world with ⟨e, v, hv, -⟩ | ⟨step, v, hv, -⟩
  · cases hp.symm.trans hv
  · cases hp.symm.trans hv

/-! ## Pulls one after the other -/

/-- The walk before pull `n`, if pull `i` is from `worlds i`. -/
def after (w : Walk) (worlds : Nat → W) : Nat → Walk
  | 0 => w
  | n + 1 => stateLeft (pull (worlds n) (w.after worlds n))

/-- What pull `n` gives. -/
def pulled (w : Walk) (worlds : Nat → W) (n : Nat) : EStateM.Result Error Walk (Option Step) :=
  pull (worlds n) (w.after worlds n)

variable {w : Walk} {worlds : Nat → W}

theorem after_succ_of_isDone {n : Nat} (h : (w.after worlds n).isDone) :
    w.after worlds (n + 1) = w.after worlds n := by
  rw [after, pull_of_isDone h]
  rfl

theorem after_of_isDone {m n : Nat} (hmn : m ≤ n) (h : (w.after worlds m).isDone) :
    w.after worlds n = w.after worlds m := by
  induction n, hmn using Nat.le_induction with
  | base => rfl
  | succ n _ ih => rw [after_succ_of_isDone (ih ▸ h), ih]

theorem sound_of_isDone {w : Walk} (h : w.isDone) : w.Sound := by
  have hframes : w.frames = [] := List.isEmpty_iff.1 (Bool.and_eq_true_iff.1 h).2
  rw [Sound, hframes]
  nofun

theorem Sound.after (hw : w.Sound) (worlds : Nat → W) (n : Nat) :
    (w.after worlds n).chain = w.chain ∧ (w.after worlds n).Sound := by
  induction n with
  | zero => exact ⟨rfl, hw⟩
  | succ n ih =>
    obtain ⟨hchain, hsound⟩ := ih
    by_cases hd : (w.after worlds n).isDone
    · rw [after_succ_of_isDone hd]
      exact ⟨hchain, hsound⟩
    · rw [Walk.after]
      rcases hsound.pull_cases hd (worlds n) with
        ⟨e, w', hp, hc, hd'⟩ | ⟨step, w', hp, hc, hw', -⟩
      · rw [hp]
        exact ⟨hc.trans hchain, sound_of_isDone hd'⟩
      · rw [hp]
        exact ⟨hc.trans hchain, hw'⟩

/-- Some pull leaves nothing. -/
theorem exists_isDone (hw : w.Sound) (worlds : Nat → W) : ∃ n, (w.after worlds n).isDone := by
  have : IsWellFounded Walk (Follows W) := ⟨wellFounded_follows⟩
  obtain ⟨n, hn⟩ := WellFounded.not_rel_apply_succ (r := Follows W) (w.after worlds)
  by_cases hd : (w.after worlds n).isDone
  · exact ⟨n, hd⟩
  · refine ⟨n + 1, ?_⟩
    rw [Walk.after] at hn ⊢
    rcases (hw.after worlds n).2.pull_cases hd (worlds n) with
      ⟨e, w', hp, -, hd'⟩ | ⟨step, w', hp, -⟩
    · rw [hp]
      exact hd'
    · exact absurd ⟨worlds n, step, hp ▸ rfl⟩ hn

/-- From one pull to the next a walk goes over, and stays so. -/
theorem exists_over (hw : w.Sound) (hd : ¬ w.isDone) (worlds : Nat → W) :
    ∃ last, (∀ n ≤ last, ¬ (w.after worlds n).isDone) ∧
      ∀ n > last, (w.after worlds n).isDone := by
  classical
  have hex := exists_isDone hw worlds
  have hpos : Nat.find hex ≠ 0 := by
    intro h0
    have hspec := Nat.find_spec hex
    rw [h0] at hspec
    exact hd hspec
  refine ⟨Nat.find hex - 1, fun n hn => Nat.find_min hex (by omega), fun n hn => ?_⟩
  rw [after_of_isDone (show Nat.find hex ≤ n by omega) (Nat.find_spec hex)]
  exact Nat.find_spec hex

/-- Pull `last` ends a walk. -/
structure Course (w : Walk) (worlds : Nat → W) (last : Nat) : Prop where
  /-- The pulls before it give steps that are not marked as the last. -/
  before : ∀ n < last, ∃ step w', w.pulled worlds n = .ok (some step) w' ∧ step.isLast = false
  /-- It gives the step marked as the last, or an error. -/
  ending : (∃ step w', w.pulled worlds last = .ok (some step) w' ∧ step.isLast = true) ∨
    ∃ e w', w.pulled worlds last = .error e w'
  /-- The pulls after it give nothing. -/
  beyond : ∀ n > last, ∃ w', w.pulled worlds n = .ok none w'

theorem exists_course (hw : w.Sound) (hd : ¬ w.isDone) (worlds : Nat → W) :
    ∃ last, Course w worlds last := by
  obtain ⟨last, hgoing, hover⟩ := exists_over hw hd worlds
  refine ⟨last, fun n hn => ?_, ?_, fun n hn => ⟨_, pull_of_isDone (hover n hn) (worlds n)⟩⟩
  · have hnext := hgoing (n + 1) hn
    rw [after] at hnext
    rcases (hw.after worlds n).2.pull_cases (hgoing n (by omega)) (worlds n) with
      ⟨e, w', hp, -, hd'⟩ | ⟨step, w', hp, -, -, hlast⟩
    · rw [hp] at hnext
      exact absurd hd' hnext
    · rw [hp] at hnext
      exact ⟨step, w', hp, hlast.trans (Bool.eq_false_iff.2 hnext)⟩
  · have hnext := hover (last + 1) (Nat.lt_succ_self last)
    rw [after] at hnext
    rcases (hw.after worlds last).2.pull_cases (hgoing last (Nat.le_refl last)) (worlds last) with
      ⟨e, w', hp, -⟩ | ⟨step, w', hp, -, -, hlast⟩
    · exact .inr ⟨e, w', hp⟩
    · rw [hp] at hnext
      exact .inl ⟨step, w', hp, hlast.trans hnext⟩

/-- A walk is done exactly if the next pull gives nothing, from whatever world; and one
pull ends it, with the only step that is marked as the last or with an error. -/
theorem course_of_start (chain : Chain) (root : Context) (random : Random) (worlds : Nat → W) :
    (∀ (n : Nat) (world : W), ((start chain root random).after worlds n).isDone ↔
      ∃ w', pull world ((start chain root random).after worlds n) = .ok none w') ∧
    ∃ last, Course (start chain root random) worlds last := by
  have hw := sound_start chain root random
  exact ⟨fun n world => (hw.after worlds n).2.isDone_iff world, exists_course hw nofun worlds⟩

end CommandChain.Walk
