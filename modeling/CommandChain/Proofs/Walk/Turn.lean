import CommandChain.Proofs.Walk.Course

/-!
# Turns of a pull

A pull looks for the next step in turns. A turn applies a subcommand to the pending
context, if there is one, and then takes the next context off the latest frame
(`Walk.turn`). A redirect or a guard makes no step: the context that it made is pending
in the next turn.

`Walk.pull` runs through the subcommands to come instead. Both come to the same answer,
and a pull takes no more turns than the chain has subcommands, and one (`Sound.turns`).
With the end of all walks, every pull comes to its answer and some pull finds the walk
over: `pulls_end`.
-/

namespace CommandChain.Walk

/-- What a turn comes to. -/
inductive Turn where
  | again
  /-- The answer of the pull. -/
  | answer (step : Option Step)

/-- Takes the next context off the latest frame, and drops the frame if this was its
last one. A frame without contexts or without subcommand is passed over. -/
def take : Effect Walk Turn := fun w =>
  match w.frames with
  | [] => .ok (.answer none) w
  | ⟨index, children⟩ :: below =>
    let w := { w with frames := push index children.tail below }
    match children.head?, w.chain.get? index with
    | some child, some s =>
      if index + 1 = w.chain.length then .ok (.answer (some (w.finalStep child s index))) w
      else
        let w := { w with pending := some (child, index + 1) }
        if s.isFork then .ok (.answer (some ⟨child, s, index, false, false⟩)) w
        else .ok .again w
    | _, _ => .ok .again w

variable {W : Type} [WorldView W]

/-- One turn of a pull. -/
def turn (world : W) : Effect Walk Turn := fun w =>
  match w.pending with
  | none => take w
  | some (c, index) =>
    let w := { w with pending := none }
    match w.chain.get? index with
    | none => .ok (.answer (some (w.finalStep c none index))) w
    | some s =>
      match s.applyAt index world c w.random with
      | .error e random => .error e { w with frames := [], random }
      | .ok [] random => .ok (.answer (some (w.finalStep none s index))) { w with random }
      | .ok children random => take { w with frames := ⟨index, children⟩ :: w.frames, random }

/-- After so many turns a pull comes to this result. -/
inductive Turns (world : W) : Nat → Walk → EStateM.Result Error Walk (Option Step) → Prop where
  | answer {w w' : Walk} {step : Option Step} :
    turn world w = .ok (.answer step) w' → Turns world 1 w (.ok step w')
  | error {w w' : Walk} {e : Error} : turn world w = .error e w' → Turns world 1 w (.error e w')
  | again {w w' : Walk} {n : Nat} {r : EStateM.Result Error Walk (Option Step)} :
    turn world w = .ok .again w' → Turns world n w' r → Turns world (n + 1) w r

variable {chain : Chain} {frames : List Frame} {world : W}

theorem get?_of_drop {index : Nat} {s : Subcommand} {rest : List Subcommand}
    (hdrop : chain.subcommands.drop index = s :: rest) : chain.get? index = some s := by
  rw [Chain.get?, ← List.head?_drop, hdrop, List.head?_cons]

theorem get?_of_drop_nil {index : Nat} (hdrop : chain.subcommands.drop index = []) :
    chain.get? index = none := by
  rw [Chain.get?, ← List.head?_drop, hdrop, List.head?_nil]

section

variable {s : Subcommand} {rest : List Subcommand} {index : Nat}

theorem take_cons (hdrop : chain.subcommands.drop index = s :: rest) (child : Context)
    (children : List Context) (random : Random) :
    take (above chain (⟨index, child :: children⟩ :: frames) random) =
      let w := above chain (push index children frames) random
      let onward := { w with pending := some (child, index + 1) }
      if rest.isEmpty then .ok (.answer (some (w.finalStep child s index))) w
      else if s.isFork then .ok (.answer (some ⟨child, s, index, false, false⟩)) onward
      else .ok .again onward := by
  have hend : index + 1 = chain.length ↔ rest.isEmpty := by
    rw [length_of_drop hdrop, List.isEmpty_iff_length_eq_zero]
    omega
  simp only [take, above, List.tail_cons, List.head?_cons, get?_of_drop hdrop, hend]

/-- A turn that takes `child` comes to what `arrive` does, or leaves it to the turns
after it. -/
theorem turns_of_take {k : Nat} (hdrop : chain.subcommands.drop index = s :: rest) {w : Walk}
    {child : Context} {children : List Context} {random : Random}
    (hw : turn world w = take (above chain (⟨index, child :: children⟩ :: frames) random))
    (honward : Turns world k
      { above chain (push index children frames) random with pending := some (child, index + 1) }
      (descend world rest (index + 1) child (above chain (push index children frames) random))) :
    ∃ n ≤ k + 1, Turns world n w
      (arrive s rest.isEmpty index child (descend world rest (index + 1) child)
        (above chain (push index children frames) random)) := by
  rw [take_cons hdrop] at hw
  unfold arrive
  by_cases hlast : rest.isEmpty
  · rw [if_pos hlast] at hw ⊢
    exact ⟨1, by omega, .answer hw⟩
  · rw [if_neg hlast] at hw ⊢
    by_cases hfork : s.isFork
    · rw [if_pos hfork] at hw ⊢
      exact ⟨1, by omega, .answer hw⟩
    · rw [if_neg hfork] at hw ⊢
      exact ⟨k + 1, Nat.le_refl _, .again hw honward⟩

end

/-- The induction is on the subcommands to come: each turn that gives no step leaves one
fewer. -/
theorem turns_descend (world : W) (rest : List Subcommand) (index : Nat)
    (hdrop : chain.subcommands.drop index = rest) (c : Context) (frames : List Frame)
    (random : Random) :
    ∃ n ≤ rest.length + 1, Turns world n
      { above chain frames random with pending := some (c, index) }
      (descend world rest index c (above chain frames random)) := by
  induction rest generalizing index c frames random with
  | nil =>
    refine ⟨1, Nat.le_refl 1, .answer ?_⟩
    simp only [turn, above, get?_of_drop_nil hdrop]
  | cons s rest ih =>
    have hrest := Chain.drop_succ hdrop
    have hturn : turn world { above chain frames random with pending := some (c, index) } =
        match s.applyAt index world c random with
        | .error e random' => .error e (above chain [] random')
        | .ok [] random' =>
          .ok (.answer (some ((above chain frames random').finalStep none s index)))
            (above chain frames random')
        | .ok children random' => take (above chain (⟨index, children⟩ :: frames) random') := by
      simp only [turn, above, get?_of_drop hdrop]
      rfl
    simp only [descend, above]
    cases ha : s.applyAt index world c random with
    | error e random' =>
      rw [ha] at hturn
      exact ⟨1, by omega, .error hturn⟩
    | ok children random' =>
      rw [ha] at hturn
      cases children with
      | nil => exact ⟨1, by omega, .answer hturn⟩
      | cons child children =>
        obtain ⟨k, hk, honward⟩ := ih (index + 1) hrest child (push index children frames) random'
        obtain ⟨n, hn, hturns⟩ := turns_of_take hdrop hturn honward
        exact ⟨n, by rw [List.length_cons]; omega, hturns⟩

/-- A pull comes to its answer in so many turns. -/
theorem Sound.turns {w : Walk} (hw : w.Sound) (world : W) :
    ∃ n ≤ w.chain.length + 1, Turns world n w (pull world w) := by
  obtain ⟨chain, frames, pending, random⟩ := w
  cases pending with
  | some next =>
    obtain ⟨n, hn, hturns⟩ := turns_descend world _ next.2 rfl next.1 frames random
    rw [List.length_drop] at hn
    refine ⟨n, ?_, hturns⟩
    show n ≤ chain.subcommands.length + 1
    omega
  | none =>
    cases frames with
    | nil => exact ⟨1, by omega, .answer rfl⟩
    | cons frame frames =>
      have hframes : FramesSound chain (frame :: frames) := hw
      obtain ⟨index, child, children, s, rest, rfl, hdrop, -⟩ := hframes.top
      obtain ⟨k, hk, honward⟩ := turns_descend world rest (index + 1) (Chain.drop_succ hdrop)
        child (push index children frames) random
      obtain ⟨n, hn, hturns⟩ := turns_of_take hdrop
        (w := above chain (⟨index, child :: children⟩ :: frames) random) rfl honward
      have hresume : pull world (above chain (⟨index, child :: children⟩ :: frames) random) = _ :=
        resume_push_cons hdrop world child children random
      have hlength := length_of_drop hdrop
      refine ⟨n, ?_, hresume.symm ▸ hturns⟩
      show n ≤ chain.length + 1
      omega

/-- However the worlds differ from pull to pull, every pull comes to its answer, and
from some pull on the answer is that the walk is over. -/
theorem pulls_end (chain : Chain) (root : Context) (random : Random) (worlds : Nat → W) :
    (∀ n, ∃ k ≤ chain.length + 1, Turns (worlds n) k ((start chain root random).after worlds n)
      ((start chain root random).pulled worlds n)) ∧
    ∃ enough, ∀ n ≥ enough, ∃ w', (start chain root random).pulled worlds n = .ok none w' := by
  have hw := sound_start chain root random
  refine ⟨fun n => ?_, ?_⟩
  · obtain ⟨hchain, hsound⟩ := hw.after worlds n
    have hturns := hsound.turns (worlds n)
    rwa [hchain] at hturns
  · obtain ⟨last, hcourse⟩ := exists_course hw nofun worlds
    exact ⟨last + 1, hcourse.beyond⟩

end CommandChain.Walk
