import CommandChain.Proofs.Chain.Visit
import CommandChain.Proofs.Effect

/-!
# What draws from the random source

Only a selector of random order draws. A subcommand whose selectors are all ordered by
distance gives the same result from every random source, and leaves the source as it
was (`Subcommand.drawsNothing_applyAt`); so does a chain of such subcommands, whatever
its action does to the world (`Chain.Ordered.exists_visit`).
-/

namespace CommandChain

/-! ## Selectors named -/

def HolderExpr.selectors : HolderExpr → List Selector
  | selector s => [s]
  | name _ => []

def Condition.selectors : Condition → List Selector
  | entity s => [s]
  | block _ _ => []
  | score left _ right => left.holder.selectors ++ right.holder.selectors
  | scoreMatches access _ => access.holder.selectors

/-- The selectors that a subcommand resolves. -/
def Subcommand.selectors : Subcommand → List Selector
  | redirect _ => []
  | fork f => [f.selector]
  | guard g => g.condition.selectors

/-- The selectors are ordered by distance. -/
def AllNearest (selectors : List Selector) : Prop := ∀ s ∈ selectors, s.type.order = .nearest

instance (selectors : List Selector) : Decidable (AllNearest selectors) :=
  inferInstanceAs (Decidable (∀ s ∈ selectors, _))

/-- No selector of the chain is of random order. -/
def Chain.Ordered (chain : Chain) : Prop := ∀ s ∈ chain.subcommands, AllNearest s.selectors

instance (chain : Chain) : Decidable chain.Ordered :=
  inferInstanceAs (Decidable (∀ s ∈ chain.subcommands, _))

/-! ## Effects that draw nothing -/

namespace Effect

variable {α β : Type}

/-- The result is the same from every random source, which stays as it is. -/
def DrawsNothing (x : Effect Random α) : Prop :=
  ∃ r : Except Error α, ∀ random, x random = ofExcept r random

theorem drawsNothing_ofExcept (r : Except Error α) : DrawsNothing (ofExcept r) :=
  ⟨r, fun _ => rfl⟩

theorem drawsNothing_pure (a : α) : DrawsNothing (pure a) := ⟨.ok a, fun _ => rfl⟩

theorem DrawsNothing.bind {x : Effect Random α} {f : α → Effect Random β} (hx : x.DrawsNothing)
    (hf : ∀ a, (f a).DrawsNothing) : (x >>= f).DrawsNothing := by
  obtain ⟨r, hr⟩ := hx
  cases r with
  | ok a =>
    obtain ⟨r', hr'⟩ := hf a
    exact ⟨r', fun random => (bind_of_ok (hr random)).trans (hr' random)⟩
  | error e => exact ⟨.error e, fun random => bind_of_error (hr random)⟩

theorem DrawsNothing.within {x : Effect Random α} (hx : x.DrawsNothing) (place : Place) :
    (x.within place).DrawsNothing := by
  obtain ⟨r, hr⟩ := hx
  cases r with
  | ok a => exact ⟨.ok a, fun random => by rw [Effect.within, hr]; rfl⟩
  | error e => exact ⟨.error (e.within place), fun random => by rw [Effect.within, hr]; rfl⟩

end Effect

variable {W : Type} [WorldView W]

/-! ## Subcommands -/

theorem drawsNothing_resolve {s : Selector} (h : s.type.order = .nearest) (world : W)
    (c : Context) : (s.resolve world c).DrawsNothing := by
  have hordered (centre : Vec3) (ids : List EntityId) :
      (s.ordered world centre ids).DrawsNothing := by
    unfold Selector.ordered
    rw [h]
    exact ⟨.ok (Selector.byDistance world centre ids), fun _ => rfl⟩
  exact (Effect.drawsNothing_ofExcept _).bind fun centre =>
    (Effect.drawsNothing_ofExcept _).bind fun _ =>
      (hordered centre _).bind fun _ => Effect.drawsNothing_pure _

theorem drawsNothing_score {a : ScoreAccess} (h : AllNearest a.holder.selectors) (world : W)
    (c : Context) : (a.value world c).DrawsNothing := by
  have hholder : (a.holder.resolve world c).DrawsNothing := by
    cases hh : a.holder with
    | selector s =>
      rw [hh] at h
      exact (drawsNothing_resolve (h s List.mem_cons_self) world c).bind fun _ =>
        Effect.drawsNothing_pure _
    | name n => exact Effect.drawsNothing_pure _
  exact hholder.bind fun _ => Effect.drawsNothing_pure _

theorem drawsNothing_condition {condition : Condition} (h : AllNearest condition.selectors)
    (world : W) (c : Context) : (condition.holds world c).DrawsNothing := by
  cases condition with
  | entity s =>
    exact (drawsNothing_resolve (h s List.mem_cons_self) world c).bind fun _ =>
      Effect.drawsNothing_pure _
  | block position predicate =>
    exact (Effect.drawsNothing_ofExcept _).bind fun _ => Effect.drawsNothing_pure _
  | score left relation right =>
    obtain ⟨hleft, hright⟩ := List.forall_mem_append.1 h
    exact (drawsNothing_score hleft world c).bind fun _ =>
      (drawsNothing_score hright world c).bind fun _ => Effect.drawsNothing_pure _
  | scoreMatches access range =>
    exact (drawsNothing_score h world c).bind fun _ => Effect.drawsNothing_pure _

theorem Subcommand.drawsNothing_applyAt {s : Subcommand} (h : AllNearest s.selectors)
    (index : Nat) (world : W) (c : Context) : (s.applyAt index world c).DrawsNothing := by
  refine Effect.DrawsNothing.within ?_ (s.place index)
  cases s with
  | redirect r => exact Effect.drawsNothing_ofExcept _
  | fork f =>
    exact (drawsNothing_resolve (h f.selector List.mem_cons_self) world c).bind fun _ =>
      Effect.drawsNothing_ofExcept _
  | guard g =>
    have hpasses : (g.passes world c).DrawsNothing :=
      (drawsNothing_condition h world c).bind fun _ => Effect.drawsNothing_pure _
    exact hpasses.bind fun _ => Effect.drawsNothing_pure _

/-! ## Visits -/

section

variable {action : Context → Effect W Unit} {rest : List Subcommand} {index : Nat}

theorem exists_visitEach
    (ih : ∀ (c : Context) (world : W), ∃ r : EStateM.Result Error W Nat, ∀ random,
      visit action rest index c (world, random) = mapState (·, random) r)
    (children : List Context) (count : Nat) (world : W) :
    ∃ r : EStateM.Result Error W Nat, ∀ random,
      visitEach action rest index count children (world, random) = mapState (·, random) r := by
  induction children generalizing count world with
  | nil => exact ⟨.ok count world, fun _ => rfl⟩
  | cons child children ihc =>
    obtain ⟨r, hr⟩ := ih child world
    cases r with
    | error e world' => exact ⟨.error e world', fun random => by rw [visitEach_cons, hr]; rfl⟩
    | ok n world' =>
      obtain ⟨r', hr'⟩ := ihc (count + n) world'
      refine ⟨r', fun random => ?_⟩
      rw [visitEach_cons, hr]
      exact hr' random

theorem exists_visit (h : ∀ s ∈ rest, AllNearest s.selectors) (c : Context) (world : W) :
    ∃ r : EStateM.Result Error W Nat, ∀ random,
      visit action rest index c (world, random) = mapState (·, random) r := by
  induction rest generalizing index c world with
  | nil =>
    cases ha : action c world with
    | ok u world' => exact ⟨.ok 1 world', fun random => by rw [visit_nil, ha]; rfl⟩
    | error e world' => exact ⟨.error e world', fun random => by rw [visit_nil, ha]; rfl⟩
  | cons s rest ih =>
    obtain ⟨hs, hrest⟩ := List.forall_mem_cons.1 h
    obtain ⟨r, hr⟩ := Subcommand.drawsNothing_applyAt hs index world c
    cases r with
    | error e => exact ⟨.error e world, fun random => by rw [visit_cons, hr]; rfl⟩
    | ok children =>
      obtain ⟨r', hr'⟩ := exists_visitEach (fun c world => ih hrest c world) children 0 world
      refine ⟨r', fun random => ?_⟩
      rw [visit_cons, hr]
      exact hr' random

end

/-- A chain without a selector of random order is visited alike from every random source. -/
theorem Chain.Ordered.exists_visit {chain : Chain} (h : chain.Ordered) (root : Context)
    (action : Context → Effect W Unit) (world : W) :
    ∃ r : EStateM.Result Error W Nat, ∀ random,
      chain.visit root action (world, random) = mapState (·, random) r :=
  CommandChain.exists_visit h root world

end CommandChain
