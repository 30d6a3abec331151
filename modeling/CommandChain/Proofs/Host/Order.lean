import CommandChain.Proofs.Chain.Invariant
import CommandChain.Proofs.Host.Exchange
import CommandChain.Proofs.Runner
import Mathlib.Data.List.Forall2

/-!
# What a host is asked while commands run

An `Order` is a command with the chain and the root from which it runs, and the host as
it is by then. A runner carries out any number of them (`inTurn`).

`Order.Account` says what the host is asked meanwhile: one exchange for each context, in
the order in which the chain is visited, up to the first that fails. `exists_accounts`
says that every order has such an account, and that no two markers have the same number.
-/

namespace CommandChain

/-- A command to run from every context that a chain makes of a root. -/
structure Order (W : Type) where
  world : W
  chain : Chain
  root : Context
  command : String

/-- Exchanges one after the other, from state `w` to the last one. -/
inductive AnsweredInTurn {W : Type} [Host W] (stem : String) (w : W) :
    List Exchange → W → Prop where
  | nil : AnsweredInTurn stem w [] w
  | concat {w' w'' : W} {xs : List Exchange} {x : Exchange} :
      AnsweredInTurn stem w xs w' → x.Answered stem w' w'' →
      AnsweredInTurn stem w (xs ++ [x]) w''

namespace Order

open Runner (submission runCommand_eq stateLeft_submission error?_submission)

variable {W : Type} [Host W]

/-- The order carried out on a host that keeps a record of what it is asked. -/
def run (o : Order W) (r : Runner) : EStateM.Result Error (Recorded W × Runner) Nat :=
  Runner.runCommand o.chain o.root o.command (⟨o.world, []⟩, r)

/-- The visit with every submission noted down. -/
def noted (o : Order W) (r : Runner) :
    EStateM.Result Error
      (((Recorded W × Renderer) × List (Visit (Recorded W × Renderer))) × Random) Nat :=
  o.chain.visit o.root (noting (submission o.command))
    (((⟨o.world, []⟩, r.renderer), []), r.random)

/-- The contexts from which the command was submitted. -/
def contexts (o : Order W) (r : Runner) : List Context :=
  (stateLeft (o.noted r)).1.2.map (·.context)

/-- The exchanges are what the host was asked. -/
structure Account (o : Order W) (r : Runner) (xs : List Exchange) : Prop where
  calls : (stateLeft (o.run r)).1.calls = xs.flatMap (Exchange.calls r.renderer.markerStem)
  answered : AnsweredInTurn r.renderer.markerStem o.world xs (stateLeft (o.run r)).1.world
  /-- There is one for each context. -/
  contexts : xs.map Exchange.context = o.contexts r
  count : ∀ n s, o.run r = .ok n s → n = xs.length
  /-- The first that fails ends the order, with its error. -/
  ends : ∀ before x after e, xs = before ++ x :: after → x.failure? = some e →
    after = [] ∧ error? (o.run r) = some e
  /-- The record makes no difference. -/
  unrecorded : Runner.runCommand o.chain o.root o.command (o.world, r) =
    mapState (Prod.map Recorded.world id) (o.run r)

/-- Some orders in turn, each with the runner as it is by then. An error ends no more than
the order itself. -/
def inTurn : List (Order W) → Runner → List (Order W × Runner)
  | [], _ => []
  | o :: rest, r => (o, r) :: inTurn rest (stateLeft (o.run r)).2

/-! ## One order -/

theorem run_eq (o : Order W) (r : Runner) :
    o.run r = mapState r.finish (withoutNotes (o.noted r)) := by
  have h := visit_noting (submission o.command) o.chain.subcommands 0 o.root
    ((⟨o.world, []⟩ : Recorded W), r.renderer) [] r.random
  rw [run, runCommand_eq, noted, Chain.visit, Chain.visit, h]

theorem projects_submission (command : String) (c : Context) :
    Effect.Projects (Prod.map Recorded.world id) (submission (W := Recorded W) command c)
      (submission command c) :=
  (projects_submit c command).bind fun _ _ => rfl

theorem runCommand_unrecorded (o : Order W) (r : Runner) :
    Runner.runCommand o.chain o.root o.command (o.world, r) =
      mapState (Prod.map Recorded.world id) (o.run r) := by
  have h := visit_mapState (projects_submission (W := W) o.command) (fun _ _ _ _ => rfl)
    o.chain.subcommands 0 o.root (⟨o.world, []⟩, r.renderer) r.random
  rw [run, runCommand_eq, runCommand_eq, mapState_mapState]
  refine (congrArg (mapState r.finish) h).trans ?_
  rw [mapState_mapState]
  rfl

/-- The exchanges by which an order came to a state. -/
structure Exchanged (o : Order W) (r : Renderer) (xs : List Exchange)
    (state : (Recorded W × Renderer) × List (Visit (Recorded W × Renderer))) : Prop where
  calls : state.1.1.calls = xs.flatMap (Exchange.calls r.markerStem)
  answered : AnsweredInTurn r.markerStem o.world xs state.1.1.world
  contexts : xs.map Exchange.context = state.2.map (·.context)
  numbers : xs.flatMap Exchange.numbers =
    countedFrom r.nextMarker (xs.flatMap Exchange.numbers).length
  renderer : state.1.2 = r.advanced (xs.flatMap Exchange.numbers).length

/-- A further submission is a further exchange. -/
theorem Exchanged.further {o : Order W} {r : Renderer} {xs : List Exchange}
    {state : (Recorded W × Renderer) × List (Visit (Recorded W × Renderer))}
    (h : Exchanged o r xs state) (c : Context) :
    ∃ x, Exchanged o r (xs ++ [x]) (stateLeft (noting (submission o.command) c state)) ∧
      error? (noting (submission o.command) c state) = x.failure? := by
  obtain ⟨⟨w, rd⟩, visits⟩ := state
  obtain ⟨hcalls, hanswered, hcontexts, hnumbers, hrenderer⟩ := h
  obtain ⟨x, hx⟩ := exists_submitted c o.command w rd
  have hadvanced : rd = r.advanced (xs.flatMap Exchange.numbers).length := hrenderer
  have hstem : rd.markerStem = r.markerStem :=
    (congrArg Renderer.markerStem hadvanced).trans (r.markerStem_advanced _)
  refine ⟨x, ?_, ?_⟩
  · rw [stateLeft_noting, stateLeft_submission]
    refine ⟨?_, ?_, ?_, ?_, ?_⟩
    · rw [hx.calls, hstem, List.flatMap_append, List.flatMap_singleton]
      exact congrArg (· ++ _) hcalls
    · exact .concat hanswered (hstem ▸ hx.answered)
    · rw [List.map_append, List.map_append, List.map_singleton, List.map_singleton, hx.context]
      exact congrArg (· ++ _) hcontexts
    · have hnext : rd.nextMarker =
          r.nextMarker + .ofNat (xs.flatMap Exchange.numbers).length :=
        congrArg Renderer.nextMarker hadvanced
      rw [List.flatMap_append, List.flatMap_singleton, List.length_append, countedFrom_add,
        ← hnumbers, ← hnext, ← hx.numbers]
    · rw [hx.renderer, List.flatMap_append, List.flatMap_singleton, List.length_append]
      exact (congrArg (Renderer.advanced · _) hadvanced).trans (r.advanced_advanced _ _)
  · rw [error?_noting, error?_submission, hx.failure]

/-- All submissions were accepted. -/
def AllAccepted (xs : List Exchange) : Prop := ∀ x ∈ xs, x.failure? = none

theorem noted_exchanged (o : Order W) (r : Runner) :
    Keeps (fun n state => ∃ xs, Exchanged o r.renderer xs state ∧ AllAccepted xs ∧ xs.length = n)
      (fun e state => ∃ xs x, Exchanged o r.renderer (xs ++ [x]) state ∧ AllAccepted xs ∧
        x.failure? = some e) 0 (o.noted r) := by
  refine keeps_visit ?_ ?_ o.chain.subcommands 0 o.root 0 _ r.random ?_
  · rintro n c state state' ⟨xs, h, hall, rfl⟩ ha
    obtain ⟨x, hx, hfailure⟩ := h.further c
    rw [ha] at hx hfailure
    refine ⟨xs ++ [x], hx, ?_, List.length_append⟩
    intro y hy
    rcases List.mem_append.1 hy with hy | hy
    · exact hall y hy
    · obtain rfl := List.mem_singleton.1 hy
      exact hfailure.symm
  · rintro n c state e state' ⟨xs, h, hall, -⟩ ha
    obtain ⟨x, hx, hfailure⟩ := h.further c
    rw [ha] at hx hfailure
    exact ⟨xs, x, hx, hall, hfailure.symm⟩
  · have hnone : Exchanged o r.renderer [] ((⟨o.world, []⟩, r.renderer), []) :=
      ⟨rfl, .nil, rfl, rfl, (r.renderer.advanced_zero).symm⟩
    exact ⟨[], hnone, fun x hx => absurd hx List.not_mem_nil, rfl⟩

theorem AllAccepted.failed_last {xs : List Exchange} {x : Exchange} (h : AllAccepted xs)
    {before after : List Exchange} {y : Exchange} (heq : xs ++ [x] = before ++ y :: after)
    (hy : y.failure? ≠ none) : after = [] ∧ x = y := by
  rcases List.eq_nil_or_concat after with rfl | ⟨after, z, rfl⟩
  · exact ⟨rfl, List.singleton_inj.1 (List.append_inj' heq rfl).2⟩
  · have hxs : xs = before ++ y :: after := by
      rw [List.concat_eq_append, ← List.cons_append, ← List.append_assoc] at heq
      exact (List.append_inj' heq rfl).1
    exact absurd (h y (hxs ▸ by simp)) hy

theorem stateLeft_run (o : Order W) (r : Runner) :
    stateLeft (o.run r) =
      r.finish ((stateLeft (o.noted r)).1.1, (stateLeft (o.noted r)).2) := by
  rw [run_eq, stateLeft_mapState]
  cases o.noted r <;> rfl

theorem error?_run (o : Order W) (r : Runner) : error? (o.run r) = error? (o.noted r) := by
  rw [run_eq, error?_mapState]
  cases o.noted r <;> rfl

theorem noted_of_run {o : Order W} {r : Runner} {n : Nat} {state : Recorded W × Runner}
    (h : o.run r = .ok n state) : ∃ state', o.noted r = .ok n state' := by
  rw [run_eq] at h
  cases hn : o.noted r with
  | ok m state' => rw [hn] at h; cases h; exact ⟨state', rfl⟩
  | error e state' => rw [hn] at h; cases h

/-- Exchanges that led to the state left, and where they end, are an account. -/
theorem account_of_exchanged {o : Order W} {r : Runner} {xs : List Exchange}
    (h : Exchanged o r.renderer xs (stateLeft (o.noted r)).1)
    (hcount : ∀ n state, o.noted r = .ok n state → n = xs.length)
    (hends : ∀ before x after e, xs = before ++ x :: after → x.failure? = some e →
      after = [] ∧ error? (o.noted r) = some e) : o.Account r xs where
  calls := (congrArg (·.1.calls) (stateLeft_run o r)).trans h.calls
  answered := stateLeft_run o r ▸ h.answered
  contexts := h.contexts
  count n state hn := by
    obtain ⟨state', hn'⟩ := noted_of_run hn
    exact hcount n state' hn'
  ends := error?_run o r ▸ hends
  unrecorded := runCommand_unrecorded o r

/-- An order has an account, and its markers are numbered from the runner's next one on. -/
theorem exists_account (o : Order W) (r : Runner) :
    ∃ xs, o.Account r xs ∧ Exchanged o r.renderer xs (stateLeft (o.noted r)).1 := by
  have hk := noted_exchanged o r
  cases hn : o.noted r with
  | ok n state =>
    rw [hn] at hk
    obtain ⟨xs, h, hall, hlength⟩ := hk
    refine ⟨xs, account_of_exchanged (hn ▸ h) ?_ ?_, h⟩
    · intro m state' hm
      rw [hn] at hm
      cases hm
      rw [hlength, Nat.zero_add]
    · rintro before x after e rfl hx
      exact absurd ((hall x (by simp)).symm.trans hx) nofun
  | error e state =>
    rw [hn] at hk
    have hcount (xs : List Exchange) (m state') (hm : o.noted r = .ok m state') :
        m = xs.length := absurd (hn.symm.trans hm) nofun
    rcases hk with ⟨_, xs, h, hall, -⟩ | ⟨xs, x, h, hall, hx⟩
    · refine ⟨xs, account_of_exchanged (hn ▸ h) (hcount xs) ?_, h⟩
      rintro before x after e' rfl hx
      exact absurd ((hall x (by simp)).symm.trans hx) nofun
    · refine ⟨xs ++ [x], account_of_exchanged (hn ▸ h) (hcount _) ?_, h⟩
      intro before y after e' heq hy
      obtain ⟨rfl, rfl⟩ := hall.failed_last heq (by rw [hy]; exact nofun)
      exact ⟨rfl, hn ▸ hx.symm.trans hy⟩

/-! ## Orders in turn -/

/-- The orders have accounts, and their markers are numbered in a row. -/
theorem exists_accounts_counted (orders : List (Order W)) (r : Runner) :
    ∃ accounts : List (List Exchange),
      List.Forall₂ (fun turn xs => turn.1.Account turn.2 xs ∧
        turn.2.renderer.markerStem = r.renderer.markerStem) (inTurn orders r) accounts ∧
      ∃ k, accounts.flatten.flatMap Exchange.numbers = countedFrom r.renderer.nextMarker k := by
  induction orders generalizing r with
  | nil => exact ⟨[], .nil, 0, rfl⟩
  | cons o rest ih =>
    obtain ⟨xs, haccount, h⟩ := exists_account o r
    obtain ⟨accounts, haccounts, k, hk⟩ := ih (stateLeft (o.run r)).2
    have hrenderer : (stateLeft (o.run r)).2.renderer =
        r.renderer.advanced (xs.flatMap Exchange.numbers).length :=
      (congrArg (·.2.renderer) (stateLeft_run o r)).trans h.renderer
    rw [hrenderer, Renderer.markerStem_advanced] at haccounts
    refine ⟨xs :: accounts, .cons ⟨haccount, rfl⟩ haccounts,
      (xs.flatMap Exchange.numbers).length + k, ?_⟩
    rw [List.flatten_cons, List.flatMap_append, hk, countedFrom_add, ← h.numbers, hrenderer]
    rfl

/-- Whatever the host is and whatever it answers, the calls of every order are exchanges,
one for each context it visits, up to the first that fails. Every marker is the stem with
a number, and the numbers ascend from order to order. -/
theorem exists_accounts (orders : List (Order W)) (r : Runner) :
    ∃ accounts : List (List Exchange),
      List.Forall₂ (fun turn xs => turn.1.Account turn.2 xs ∧
        turn.2.renderer.markerStem = r.renderer.markerStem) (inTurn orders r) accounts ∧
      let numbers := accounts.flatten.flatMap Exchange.numbers
      (r.renderer.nextMarker.toNat + numbers.length < UInt64.size →
        numbers.Pairwise (· < ·) ∧ ∀ n ∈ numbers, r.renderer.nextMarker ≤ n) := by
  obtain ⟨accounts, haccounts, k, hk⟩ := exists_accounts_counted orders r
  refine ⟨accounts, haccounts, fun hsize => ?_⟩
  have hlength : (countedFrom r.renderer.nextMarker k).length = k := by simp [countedFrom]
  rw [hk, hlength] at hsize
  rw [hk]
  exact ⟨pairwise_countedFrom hsize, fun n => le_of_mem_countedFrom hsize⟩

end Order

end CommandChain
