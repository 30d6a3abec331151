import CommandChain.Chain.Parser
import CommandChain.Proofs.Walk.Turn
import CommandChain.Proofs.World.Operation

/-!
# The frames of a walk

A frame is dropped as soon as its last context is taken, before the subcommands to come are
applied to this context. So no frame is ever without contexts, and the frames are of earlier
and earlier subcommands from the latest down, all of them before the one that is applied to the
pending context (`Stacked`).

A turn keeps this (`Stacked.turn`), and so do all turns and pulls of a walk
(`frames_stacked`). It follows that no turn passes over a frame: a turn that did anything
else there would come to the same (`turnOr`). And no context gets lost but in an error: those
that were made are those that were visited and those that are still in the frames.
-/

namespace CommandChain.Walk

/-! ## Frames passed over -/

/-- `take`, with something else done at a frame without contexts or without subcommand. -/
def takeOr (skip : Effect Walk Turn) : Effect Walk Turn := fun w =>
  match w.frames with
  | [] => .ok (.answer none) w
  | ⟨index, children⟩ :: below =>
    let w := { w with frames := push index children.tail below }
    match children.head?, w.chain.get? index with
    | some child, some s =>
      if index + 1 = w.chain.length then .ok (.answer (some (w.finalStep child s index))) w
      else
        let w := { w with pending := some (child, index + 1) }
        if s.isFork then .ok (.answer (some ⟨child, s, index, false, false⟩)) w
        else .ok .again w
    | _, _ => skip w

variable {W : Type} [WorldView W]

/-- `turn`, with something else done at such a frame. -/
def turnOr (skip : Effect Walk Turn) (world : W) : Effect Walk Turn := fun w =>
  match w.pending with
  | none => takeOr skip w
  | some (c, index) =>
    let w := { w with pending := none }
    match w.chain.get? index with
    | none => .ok (.answer (some (w.finalStep c none index))) w
    | some s =>
      match s.applyAt index world c w.random with
      | .error e random => .error e { w with frames := [], random }
      | .ok [] random => .ok (.answer (some (w.finalStep none s index))) { w with random }
      | .ok children random =>
        takeOr skip { w with frames := ⟨index, children⟩ :: w.frames, random }

theorem turnOr_again (world : W) : turnOr (fun w => .ok .again w) world = turn world := rfl

variable {chain : Chain} {frames : List Frame} {skip : Effect Walk Turn}

theorem takeOr_eq {s : Subcommand} {rest : List Subcommand} {index : Nat}
    (hdrop : chain.subcommands.drop index = s :: rest) (child : Context)
    (children : List Context) (random : Random) :
    takeOr skip (above chain (⟨index, child :: children⟩ :: frames) random) =
      take (above chain (⟨index, child :: children⟩ :: frames) random) := by
  simp only [takeOr, take, above, List.head?_cons, get?_of_drop hdrop]

/-! ## Contexts made and visited -/

/-- The contexts left in the frames, each with the number of the subcommand that made it. The
first of them is visited next. -/
def unvisited (w : Walk) : List (Context × Nat) :=
  w.frames.flatMap fun frame => frame.children.map (·, frame.index)

/-- The contexts that a turn makes of the pending one. -/
def makes (world : W) (w : Walk) : List (Context × Nat) :=
  match w.pending with
  | none => []
  | some (c, index) =>
    match w.chain.get? index with
    | none => []
    | some s =>
      match s.applyAt index world c w.random with
      | .error _ _ => []
      | .ok children _ => children.map (·, index)

/-- The context of a subcommand that a turn has given as the last of its branch. -/
def ended : Turn → List (Context × Nat)
  | .answer (some ⟨some c, some _, index, true, _⟩) => [(c, index)]
  | _ => []

/-- The contexts that a turn has taken off the frames: given as the last of a branch, or left
pending for the next subcommand. -/
def visits (outcome : Turn) (w : Walk) : List (Context × Nat) :=
  ended outcome ++ w.pending.toList.map fun (c, index) => (c, index - 1)

theorem unvisited_push (index : Nat) (children : List Context) (random : Random) :
    (above chain (push index children frames) random).unvisited =
      children.map (·, index) ++ (above chain frames random).unvisited := by
  cases children <;> rfl

/-! ## One turn -/

/-- Every frame has contexts left, and the frames are of later and later subcommands. -/
structure FramesStacked (chain : Chain) (frames : List Frame) : Prop where
  sound : FramesSound chain frames
  descending : frames.Pairwise fun later earlier => earlier.index < later.index

/-- The pending context is for a subcommand that comes after those of all frames. -/
structure Stacked (chain : Chain) (w : Walk) : Prop where
  chain_eq : w.chain = chain
  frames : FramesStacked chain w.frames
  pending : ∀ c index, w.pending = some (c, index) →
    (∀ f ∈ w.frames, f.index < index) ∧ (chain.length ≠ 0 → index < chain.length)

theorem framesStacked_nil (chain : Chain) : FramesStacked chain [] := ⟨nofun, .nil⟩

theorem stacked_start (chain : Chain) (root : Context) (random : Random) :
    Stacked chain (start chain root random) where
  chain_eq := rfl
  frames := framesStacked_nil chain
  pending := by
    rintro _ _ ⟨⟩
    exact ⟨fun _ hf => absurd hf List.not_mem_nil, Nat.pos_of_ne_zero⟩

theorem stacked_above (h : FramesStacked chain frames) (random : Random) :
    Stacked chain (above chain frames random) :=
  ⟨rfl, h, nofun⟩

theorem stacked_of_isDone {w : Walk} (hchain : w.chain = chain) (h : w.isDone) :
    Stacked chain w := by
  rw [above_of_isDone h, hchain]
  exact stacked_above (framesStacked_nil chain) w.random

theorem FramesStacked.push {index : Nat} (h : FramesStacked chain frames)
    (hindex : index < chain.length) (hbelow : ∀ f ∈ frames, f.index < index)
    (children : List Context) : FramesStacked chain (push index children frames) := by
  refine ⟨h.sound.push hindex children, ?_⟩
  cases children with
  | nil => exact h.descending
  | cons child children => exact List.pairwise_cons.2 ⟨hbelow, h.descending⟩

theorem le_of_mem_push {index : Nat} {children : List Context}
    (hbelow : ∀ f ∈ frames, f.index < index) :
    ∀ f ∈ push index children frames, f.index ≤ index := by
  have hle : ∀ f ∈ frames, f.index ≤ index := fun f hf => (hbelow f hf).le
  cases children with
  | nil => exact hle
  | cons child children => exact List.forall_mem_cons.2 ⟨Nat.le_refl index, hle⟩

/-- Whatever would be done at a frame to be passed over, the turn gives this, and leaves a
stacked walk; what was `due` has been visited or is in the frames. -/
def Keeps (chain : Chain) (due : List (Context × Nat))
    (turn : Effect Walk Turn → EStateM.Result Error Walk Turn) : Prop :=
  ∃ outcome w', (∀ skip, turn skip = .ok outcome w') ∧ Stacked chain w' ∧
    due = visits outcome w' ++ w'.unvisited

theorem FramesStacked.take (h : FramesStacked chain frames) (random : Random) :
    Keeps chain (above chain frames random).unvisited
      (takeOr · (above chain frames random)) := by
  cases frames with
  | nil => exact ⟨_, _, fun _ => rfl, stacked_above h random, rfl⟩
  | cons frame frames =>
    obtain ⟨index, child, children, s, rest, rfl, hdrop, -⟩ := h.sound.top
    obtain ⟨hbelow, hdescending⟩ := List.pairwise_cons.1 h.descending
    have hframes : FramesStacked chain frames :=
      ⟨(List.forall_mem_cons.1 h.sound).2, hdescending⟩
    have hlength := length_of_drop hdrop
    have hindex : index < chain.length := by omega
    have hpush := hframes.push hindex hbelow children
    have hunvisited : (above chain (⟨index, child :: children⟩ :: frames) random).unvisited =
        (child, index) :: (above chain (Walk.push index children frames) random).unvisited := by
      rw [unvisited_push]
      rfl
    have hpending : rest ≠ [] →
        Stacked chain { above chain (Walk.push index children frames) random with
          pending := some (child, index + 1) } := by
      intro hrest
      refine ⟨rfl, hpush, ?_⟩
      rintro _ _ ⟨⟩
      have hpos := List.length_pos_of_ne_nil hrest
      exact ⟨fun f hf => Nat.lt_succ_of_le (le_of_mem_push hbelow f hf), fun _ => by omega⟩
    rw [hunvisited]
    simp only [takeOr_eq hdrop, take_cons hdrop, Keeps]
    by_cases hlast : rest.isEmpty
    · rw [if_pos hlast]
      exact ⟨_, _, fun _ => rfl, stacked_above hpush random, rfl⟩
    · have hrest : rest ≠ [] := by simpa using hlast
      rw [if_neg hlast]
      by_cases hfork : s.isFork
      · rw [if_pos hfork]
        exact ⟨_, _, fun _ => rfl, hpending hrest, rfl⟩
      · rw [if_neg hfork]
        exact ⟨_, _, fun _ => rfl, hpending hrest, rfl⟩

/-- Unless it fails, which ends the walk, a turn keeps the frames stacked and loses nothing. -/
theorem Stacked.turn {w : Walk} (h : Stacked chain w) (world : W) :
    Keeps chain (makes world w ++ w.unvisited) (turnOr · world w) ∨
      ∃ e w', (∀ skip, turnOr skip world w = .error e w') ∧ w'.chain = chain ∧ w'.isDone := by
  obtain ⟨chain', frames, pending, random⟩ := w
  obtain ⟨hchain, hframes, hpending⟩ := h
  obtain rfl : chain = chain' := hchain.symm
  cases pending with
  | none => exact .inl (hframes.take random)
  | some next =>
    obtain ⟨c, index⟩ := next
    obtain ⟨hbelow, -⟩ := hpending c index rfl
    simp only [Walk.turnOr, makes]
    cases hs : chain.get? index with
    | none =>
      exact .inl ⟨_, _, fun _ => rfl, stacked_above hframes random, rfl⟩
    | some s =>
      dsimp only
      cases ha : s.applyAt index world c random with
      | error e random' => exact .inr ⟨e, _, fun _ => rfl, rfl, rfl⟩
      | ok children random' =>
        cases children with
        | nil => exact .inl ⟨_, _, fun _ => rfl, stacked_above hframes random', rfl⟩
        | cons child children =>
          have hindex : index < chain.length := (List.getElem?_eq_some_iff.1 hs).1
          have hpush := hframes.push hindex hbelow (child :: children)
          exact .inl (hpush.take random')

/-! ## All turns -/

/-- Turns lead to this walk. The contexts `made` were made in them, and the contexts `visited`
were taken off the frames. -/
inductive Runs (W : Type) [WorldView W] (w₀ : Walk) :
    List (Context × Nat) → List (Context × Nat) → Walk → Prop where
  | refl : Runs W w₀ [] [] w₀
  | turn {made visited : List (Context × Nat)} {w w' : Walk} {outcome : Turn} (world : W) :
    Runs W w₀ made visited w → turn world w = .ok outcome w' →
    Runs W w₀ (made ++ makes world w) (visited ++ visits outcome w') w'

variable {root : Context} {random : Random} {made visited : List (Context × Nat)} {w : Walk}

theorem Runs.stacked (h : Runs W (start chain root random) made visited w) :
    Stacked chain w ∧ made.Perm (visited ++ w.unvisited) := by
  induction h with
  | refl => exact ⟨stacked_start chain root random, .nil⟩
  | @turn made visited w w' outcome world _ hturn ih =>
    obtain ⟨hw, hperm⟩ := ih
    rw [← turnOr_again] at hturn
    rcases hw.turn world with ⟨_, _, hkept, hstacked, hdue⟩ | ⟨_, _, hfailed, -⟩
    · cases (hkept _).symm.trans hturn
      -- what the turn has made is due in front of what was left in the frames before
      have hmade := hperm.append_right (makes world w)
      rw [List.append_assoc] at hmade
      refine ⟨hstacked, ?_⟩
      rw [List.append_assoc, ← hdue]
      exact hmade.trans (List.perm_append_comm.append_left visited)
    · cases (hfailed _).symm.trans hturn

theorem Runs.passes_no_frame (h : Runs W (start chain root random) made visited w)
    (skip : Effect Walk Turn) (world : W) : turnOr skip world w = Walk.turn world w := by
  rw [← turnOr_again]
  rcases h.stacked.1.turn world with ⟨_, _, hkept, -⟩ | ⟨_, _, hfailed, -⟩
  · exact (hkept skip).trans (hkept _).symm
  · exact (hfailed skip).trans (hfailed _).symm

/-! ## All pulls -/

theorem Runs.of_turns {w₀ w' : Walk} {k : Nat} {world : W} {step : Option Step}
    {r : EStateM.Result Error Walk (Option Step)} (hturns : Turns world k w r)
    (hr : r = .ok step w') (h : Runs W w₀ made visited w) :
    ∃ made visited, Runs W w₀ made visited w' := by
  induction hturns generalizing made visited with
  | answer hturn =>
    cases hr
    exact ⟨_, _, .turn world h hturn⟩
  | error => cases hr
  | again hturn _ ih => exact ih hr (.turn world h hturn)

/-- What a walk comes to by pulls it comes to by turns, until a pull gives an error. -/
theorem runs_after (chain : Chain) (root : Context) (random : Random) (worlds : Nat → W) (n : Nat) :
    let w := start chain root random
    (∃ made visited, Runs W w made visited (w.after worlds n)) ∨
      ∃ m < n, ∃ e w', w.pulled worlds m = .error e w' := by
  intro w
  induction n with
  | zero => exact .inl ⟨[], [], .refl⟩
  | succ n ih =>
    rcases ih with ⟨made, visited, hruns⟩ | ⟨m, hm, hfailed⟩
    · obtain ⟨k, -, hturns⟩ := ((sound_start chain root random).after worlds n).2.turns (worlds n)
      rw [after]
      cases hp : Walk.pull (worlds n) (w.after worlds n) with
      | ok step w' => exact .inl (hruns.of_turns hturns hp)
      | error e w' => exact .inr ⟨n, Nat.lt_succ_self n, e, w', hp⟩
    · exact .inr ⟨m, hm.trans (Nat.lt_succ_self n), hfailed⟩

theorem isDone_of_error {w₀ w' : Walk} {worlds : Nat → W} {m n : Nat} {e : Error}
    (hw : w₀.Sound) (h : w₀.pulled worlds m = .error e w') (hmn : m < n) :
    (w₀.after worlds n).isDone := by
  have hdone : (w₀.after worlds (m + 1)).isDone := by
    rw [after]
    rw [pulled] at h
    by_cases hd : (w₀.after worlds m).isDone
    · rw [pull_of_isDone hd] at h
      cases h
    · rcases (hw.after worlds m).2.pull_cases hd (worlds m) with
        ⟨_, _, hp, -, hd'⟩ | ⟨_, _, hp, -⟩
      · rw [hp]
        exact hd'
      · cases hp.symm.trans h
  rw [after_of_isDone hmn hdone]
  exact hdone

/-- However the worlds differ, every turn finds the frames stacked, passes over none of them,
and loses no context that was made; and so every pull finds them, also behind an error. -/
theorem frames_stacked (chain : Chain) (root : Context) (random : Random) :
    (∀ {made visited : List (Context × Nat)} {w : Walk},
      Runs W (start chain root random) made visited w →
        Stacked chain w ∧ (∀ skip (world : W), turnOr skip world w = turn world w) ∧
          made.Perm (visited ++ w.unvisited)) ∧
    ∀ (worlds : Nat → W) (n : Nat),
      Stacked chain ((start chain root random).after worlds n) ∧
      ((∃ made visited, Runs W (start chain root random) made visited
          ((start chain root random).after worlds n)) ∨
        ∃ m < n, ∃ e w', (start chain root random).pulled worlds m = .error e w') := by
  have hw := sound_start chain root random
  refine ⟨fun h => ⟨h.stacked.1, h.passes_no_frame, h.stacked.2⟩, fun worlds n => ?_⟩
  have hruns := runs_after chain root random worlds n
  refine ⟨?_, hruns⟩
  rcases hruns with ⟨made, visited, hruns⟩ | ⟨m, hm, e, w', hfailed⟩
  · exact hruns.stacked.1
  · exact stacked_of_isDone (hw.after worlds n).1 (isDone_of_error hw hfailed hm)

/-- Of two cows the first is pending, and the second is left in the frame. -/
theorem frames_stacked_two_cows :
    let w := (World.perform [.spawn (.ofType "cow"), .spawn (.ofType "cow")]).2
    let root := Context.atPoint ⟨0, .server⟩ .overworld .zero
    let named (contexts : List (Context × Nat)) := contexts.map fun c => (c.1.executor, c.2)
    ∃ chain outcome walk,
      let walk₀ := start chain root (.ofSeed 0)
      Chain.parse .standard [.fork .as "@r[type=cow,c=2]", .fork .at "@s"] = .ok chain ∧
      Runs World walk₀ (makes w walk₀) (visits outcome walk) walk ∧
      Stacked chain walk ∧ (∀ skip (world : World), turnOr skip world walk = turn world walk) ∧
      (makes w walk₀).Perm (visits outcome walk ++ walk.unvisited) ∧
      named walk.pending.toList = [(some ⟨0, 1⟩, 1)] ∧
      named (makes w walk₀) = [(some ⟨0, 1⟩, 0), (some ⟨1, 1⟩, 0)] ∧
      named (visits outcome walk) = [(some ⟨0, 1⟩, 0)] ∧
      named walk.unvisited = [(some ⟨1, 1⟩, 0)] := by
  intro w root named
  have hall : (Chain.parse .standard
      [.fork .as "@r[type=cow,c=2]", .fork .at "@s"]).toOption.any fun chain =>
        match turn w (start chain root (.ofSeed 0)) with
        | .ok outcome walk =>
          named walk.pending.toList = [(some ⟨0, 1⟩, 1)] ∧
          named (makes w (start chain root (.ofSeed 0))) =
            [(some ⟨0, 1⟩, 0), (some ⟨1, 1⟩, 0)] ∧
          named (visits outcome walk) = [(some ⟨0, 1⟩, 0)] ∧
          named walk.unvisited = [(some ⟨1, 1⟩, 0)]
        | .error _ _ => false := by
    decide +kernel
  obtain ⟨chain, hchain, hturn⟩ := exists_ok_of_any hall
  split at hturn
  case h_1 outcome walk hstep =>
    have hruns := Runs.turn w .refl hstep
    obtain ⟨hstacked, hpasses, hperm⟩ := (frames_stacked chain root (.ofSeed 0)).1 hruns
    exact ⟨chain, outcome, walk, hchain, hruns, hstacked, hpasses, hperm, of_decide_eq_true hturn⟩
  case h_2 => cases hturn

end CommandChain.Walk
