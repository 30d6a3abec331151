import CommandChain.Chain.Basic

/-!
# Eager visits

Equations of `visit`: `visitEach` visits the contexts that one subcommand has
made, one after the other. A world paired with anything else is read like the
world alone (`applyAt_pair`), so an action may keep notes beside the world:
`noting` writes down every run.
-/

namespace CommandChain

variable {W : Type} [WorldView W]

/-- Visits the branches of some contexts, counting on from `count`. -/
def visitEach (action : Context → Effect W Unit) (rest : List Subcommand) (index count : Nat)
    (children : List Context) : Effect (W × Random) Nat :=
  children.foldlM (fun count child => return count + (← visit action rest index child)) count

theorem visit_nil (action : Context → Effect W Unit) (index : Nat) (c : Context) (world : W)
    (random : Random) :
    visit action [] index c (world, random) =
      match action c world with
      | .ok _ world' => .ok 1 (world', random)
      | .error e world' => .error e (world', random) := by
  simp only [visit, Effect.onFirst, bind, EStateM.bind]
  cases action c world <;> rfl

theorem visit_cons (action : Context → Effect W Unit) (s : Subcommand) (rest : List Subcommand)
    (index : Nat) (c : Context) (world : W) (random : Random) :
    visit action (s :: rest) index c (world, random) =
      match s.applyAt index world c random with
      | .ok children random' => visitEach action rest (index + 1) 0 children (world, random')
      | .error e random' => .error e (world, random') := by
  simp only [visit, Effect.onSecond, bind, EStateM.bind]
  cases s.applyAt index world c random <;> rfl

@[simp] theorem visitEach_nil (action : Context → Effect W Unit) (rest : List Subcommand)
    (index count : Nat) (state : W × Random) :
    visitEach action rest index count [] state = .ok count state := rfl

theorem visitEach_cons (action : Context → Effect W Unit) (rest : List Subcommand)
    (index count : Nat) (child : Context) (children : List Context) (state : W × Random) :
    visitEach action rest index count (child :: children) state =
      match visit action rest index child state with
      | .ok n state' => visitEach action rest index (count + n) children state'
      | .error e state' => .error e state' := by
  simp only [visitEach, List.foldlM_cons, bind, EStateM.bind]
  cases visit action rest index child state <;> rfl

/-! ## Notes beside the world -/

theorem applyAt_pair {α : Type} (s : Subcommand) (index : Nat) (world : W) (a : α) (c : Context) :
    s.applyAt index (world, a) c = s.applyAt index world c := rfl

/-- One run of an action: the world it found, and its context. -/
structure Visit (W : Type) where
  world : W
  context : Context

/-- The action, with every run noted down. -/
def noting (action : Context → Effect W Unit) (c : Context) : Effect (W × List (Visit W)) Unit :=
  fun (world, visits) =>
    match action c world with
    | .ok _ world' => .ok () (world', visits ++ [⟨world, c⟩])
    | .error e world' => .error e (world', visits ++ [⟨world, c⟩])

/-- The result without the notes. -/
def withoutNotes {σ α ν : Type} :
    EStateM.Result Error ((W × ν) × σ) α → EStateM.Result Error (W × σ) α
  | .ok a ((world, _), s) => .ok a (world, s)
  | .error e ((world, _), s) => .error e (world, s)

end CommandChain
