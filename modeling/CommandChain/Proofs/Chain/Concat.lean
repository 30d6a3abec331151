import CommandChain.Proofs.Chain.Visit
import CommandChain.Proofs.Subcommand.Failure

/-!
# Chains one after the other

`evaluate` visits like `visit`, but what it does with a context that the whole
chain has made may draw from the random source, give a count of its own and fail
with errors of any type. So the second of two chains can be evaluated from within
the first (`nested`), and errors can say who raised them (`Raised`).

`visit_append` says that this is what the two chains do as one, up to the numbers
of the second chain's subcommands. It rests on three facts about `evaluate`: it
splits at any subcommand (`evaluate_append`), it treats all error types alike
(`evaluate_raising`), and numbering on changes its errors only
(`evaluate_add`).
-/

namespace CommandChain

variable {W : Type} [WorldView W]

/-- Evaluates subcommands depth first, the first of them being number `index`, and
goes on with `finish` from every context that they make: the sum of its counts.
Errors of subcommands are marked by `raise`. -/
def evaluate {ε : Type} (raise : Error → ε) (finish : Context → EStateM ε (W × Random) Nat) :
    List Subcommand → Nat → Context → EStateM ε (W × Random) Nat
  | [], _, c => finish c
  | s :: rest, index, c => do
    let children ← raising raise (Effect.onSecond fun world => s.applyAt index world c)
    children.foldlM
      (fun count child => return count + (← evaluate raise finish rest (index + 1) child)) 0

/-- One run of an action. -/
def counted (action : Context → Effect W Unit) (c : Context) : Effect (W × Random) Nat := do
  Effect.onFirst (action c)
  return 1

theorem visit_eq_evaluate (action : Context → Effect W Unit) (l : List Subcommand) (index : Nat)
    (c : Context) : visit action l index c = evaluate id (counted action) l index c := by
  induction l generalizing index c with
  | nil => rfl
  | cons s rest ih => simp only [visit, evaluate, raising_id, ih]

section

variable {ε ε' : Type}

theorem evaluate_append (raise : Error → ε) (finish : Context → EStateM ε (W × Random) Nat)
    (l m : List Subcommand) (index : Nat) (c : Context) :
    evaluate raise finish (l ++ m) index c =
      evaluate raise (evaluate raise finish m (index + l.length)) l index c := by
  induction l generalizing index c with
  | nil => rfl
  | cons s rest ih =>
    have hlength : index + (s :: rest).length = index + 1 + rest.length := by
      rw [List.length_cons]; omega
    simp only [List.cons_append, evaluate, ih, hlength]

theorem evaluate_raising (f : ε → ε') (raise : Error → ε)
    (finish : Context → EStateM ε (W × Random) Nat) (l : List Subcommand) (index : Nat)
    (c : Context) :
    raising f (evaluate raise finish l index c) =
      evaluate (f ∘ raise) (fun c => raising f (finish c)) l index c := by
  induction l generalizing index c with
  | nil => rfl
  | cons s rest ih =>
    simp only [evaluate, raising_bind, raising_foldlM, raising_raising, ← ih]
    rfl

theorem evaluate_add (raise : Error → ε) (finish : Context → EStateM ε (W × Random) Nat)
    (l : List Subcommand) (index k : Nat) (c : Context) :
    evaluate raise finish l (index + k) c =
      evaluate (raise ∘ Error.shifted k) finish l index c := by
  induction l generalizing index c with
  | nil => rfl
  | cons s rest ih =>
    have happly : raising raise (Effect.onSecond fun world : W => s.applyAt (index + k) world c) =
        raising (raise ∘ Error.shifted k)
          (Effect.onSecond fun world => s.applyAt index world c) := by
      funext ⟨world, random⟩
      simp only [raising, Effect.onSecond, applyAt_add]
      cases s.applyAt index world c random <;> rfl
    have hindex : index + k + 1 = index + 1 + k := by omega
    simp only [evaluate, happly, hindex, ih]

end

/-! ## Who raised an error -/

/-- An error of two chains, one evaluated within the other. -/
inductive Raised where
  /-- Of a subcommand of the first chain. -/
  | outer (e : Error)
  /-- Of a subcommand of the second chain. -/
  | inner (e : Error)
  | action (e : Error)

namespace Raised

def error : Raised → Error
  | outer e => e
  | inner e => e
  | action e => e

/-- The error with the second chain's subcommands numbered on from `k`. -/
def inConcat (k : Nat) : Raised → Error
  | outer e => e
  | inner e => e.shifted k
  | action e => e

end Raised

/-- Visits what the chain makes of a context. Errors of its subcommands are marked by
`raise`. -/
def Chain.visitRaising (raise : Error → Raised) (chain : Chain) (c : Context)
    (action : Context → Effect W Unit) : EStateM Raised (W × Random) Nat :=
  evaluate raise (fun c => raising .action (counted action c)) chain.subcommands 0 c

/-- Evaluates `a`, and `b` from every context that it makes: the number of runs of the action. -/
def nested (a b : Chain) (root : Context) (action : Context → Effect W Unit) :
    EStateM Raised (W × Random) Nat :=
  evaluate .outer (fun c => b.visitRaising .inner c action) a.subcommands 0 root

theorem visitRaising_inner (chain : Chain) (c : Context) (action : Context → Effect W Unit) :
    raising Raised.error (chain.visitRaising .inner c action) = chain.visit c action := by
  have hid : Raised.error ∘ Raised.inner = id := rfl
  have haction : Raised.error ∘ Raised.action = id := rfl
  simp only [Chain.visitRaising, Chain.visit, evaluate_raising, raising_raising, hid, haction,
    raising_id, visit_eq_evaluate]

theorem raising_nested (a b : Chain) (root : Context) (action : Context → Effect W Unit) :
    raising (Raised.inConcat a.length) (nested a b root action) = (a ++ b).visit root action := by
  have houter : Raised.inConcat a.length ∘ Raised.outer = id := rfl
  have hinner : Raised.inConcat a.length ∘ Raised.inner = id ∘ Error.shifted a.length := rfl
  have haction : Raised.inConcat a.length ∘ Raised.action = id := rfl
  have hsplit : (a ++ b).subcommands = a.subcommands ++ b.subcommands := rfl
  simp only [nested, Chain.visitRaising, Chain.visit, hsplit, evaluate_raising, raising_raising,
    houter, hinner, haction, raising_id, visit_eq_evaluate, evaluate_append, ← evaluate_add]
  rfl

/-- Two chains as one do what the first one does with the second as its action: they
run the action on the same contexts from the same worlds, and come to the same world,
random source and count or error. Only an error of a subcommand of the second chain
differs, whose number is larger by the length of the first. Either chain alone is
evaluated as it is visited. -/
theorem visit_append (a b : Chain) (root : Context) (action : Context → Effect W Unit) :
    (a ++ b).visit root action = raising (Raised.inConcat a.length) (nested a b root action) ∧
    (a ++ b).visit root (noting action) =
      raising (Raised.inConcat a.length) (nested a b root (noting action)) ∧
    (∀ c, evaluate id (counted action) a.subcommands 0 c = a.visit c action) ∧
    ∀ c, raising Raised.error (b.visitRaising .inner c action) = b.visit c action :=
  ⟨(raising_nested a b root action).symm, (raising_nested a b root (noting action)).symm,
    fun c => (visit_eq_evaluate action a.subcommands 0 c).symm,
    fun c => visitRaising_inner b c action⟩

end CommandChain
