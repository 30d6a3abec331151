import CommandChain.Proofs.Chain.Failure
import CommandChain.Proofs.Selector.Shuffled

/-!
# Single selectors

Whether a selector is single is read off its text and the limit of its type, before
there is a world. It holds what it says: the limit that `resolve` cuts off at is then
one, after any narrowing, so at most one entity is picked (`Selector.length_resolve_le`).

A subcommand that is no fork, or whose selector is single, makes at most one context. So
a chain of such subcommands has one branch at most, and runs its action at most once
(`length_notes_visit`, by induction on the subcommands).
-/

namespace CommandChain

/-! ## Selectors -/

namespace Selector

variable {W : Type} [WorldView W] {s : Selector} {world : W} {c : Context}
  {random after : Random} {ids : List EntityId}

/-- The verdict at reading is about the limit at resolution. -/
theorem isSingle_iff (s : Selector) : s.isSingle ↔ s.limit? = some 1 := by
  unfold isSingle limit?
  cases s.count? with
  | some count => simp
  | none => simp

/-- A selector leaves at most one of any list exactly if it is single or its count is zero. -/
theorem isSingle_or_zero_iff (s : Selector) :
    s.isSingle ∨ s.limit? = some 0 ↔ ∀ listed, (s.limited listed).length ≤ 1 := by
  simp only [isSingle_iff, length_limited, kept]
  constructor
  · rintro (h | h) listed
    · rw [h]; exact Nat.min_le_left 1 _
    · rw [h]; exact (Nat.min_le_left 0 _).trans (Nat.zero_le 1)
  · intro h
    have htwo := h [⟨0, 1⟩, ⟨1, 1⟩]
    cases hl : s.limit? with
    | none => rw [hl] at htwo; exact absurd htwo (by decide)
    | some limit =>
      rw [hl] at htwo
      have : limit ⊓ 2 ≤ 1 := htwo
      have hlimit : limit = 1 ∨ limit = 0 := by omega
      exact hlimit.imp (congrArg some) (congrArg some)

/-- What is picked has been cut off at the limit. -/
theorem exists_cut (h : s.resolve world c random = .ok ids after) :
    ∃ listed, ids = s.limited listed := by
  obtain ⟨centre, _, _, h⟩ := bind_eq_ok_iff.1 h
  obtain ⟨q, _, _, h⟩ := bind_eq_ok_iff.1 h
  obtain ⟨listed, _, _, h⟩ := bind_eq_ok_iff.1 h
  cases h
  exact ⟨s.narrowed c listed, rfl⟩

theorem length_resolve_le (hs : s.isSingle) (h : s.resolve world c random = .ok ids after) :
    ids.length ≤ 1 := by
  obtain ⟨listed, rfl⟩ := exists_cut h
  exact (isSingle_or_zero_iff s).1 (.inl hs) listed

end Selector

/-! ## Holders -/

/-- Only a single selector is a holder. -/
theorem ScoreAccess.isSingle_of_parse {registry : SelectorRegistry} {holder objective : String}
    {a : ScoreAccess} {s : Selector} (h : parse registry holder objective = .ok a)
    (ha : a.holder = .selector s) : s.isSingle := by
  obtain ⟨expr, hexpr, h⟩ := exists_of_bind_ok h
  obtain ⟨word, _, h⟩ := exists_of_bind_ok h
  cases h
  obtain rfl : expr = .selector s := ha
  unfold parseHolder at hexpr
  dsimp only at hexpr
  split at hexpr
  · obtain ⟨s', _, hexpr⟩ := exists_of_bind_ok hexpr
    split at hexpr
    · next hs => cases hexpr; exact hs
    · cases hexpr
  · obtain ⟨name, _, hexpr⟩ := exists_of_bind_ok hexpr
    cases hexpr

/-! ## Chains -/

section

variable {W : Type} [WorldView W]

/-- A subcommand without fork, or with a single selector, makes at most one context. -/
theorem Subcommand.length_apply_le {s : Subcommand} {world : W} {c : Context}
    {random after : Random} {children : List Context}
    (hs : ∀ f, s = .fork f → f.selector.isSingle)
    (h : s.apply world c random = .ok children after) : children.length ≤ 1 := by
  cases s with
  | redirect r =>
    obtain ⟨c', _, h⟩ := exists_of_bind_ok (Effect.ofExcept_ok h)
    cases h
    exact le_rfl
  | fork f =>
    obtain ⟨ids, _, hids, h⟩ := bind_eq_ok_iff.1 h
    rw [← length_of_mapM_ok (Effect.ofExcept_ok h)]
    exact Selector.length_resolve_le (hs f rfl) hids
  | guard g =>
    obtain ⟨passes, _, _, h⟩ := bind_eq_ok_iff.1 h
    cases h
    cases passes with
    | true => exact le_rfl
    | false => exact Nat.zero_le 1

/-- The runs noted down when a visit ended, in success or failure. -/
def notes {α σ : Type} (result : EStateM.Result Error ((W × List (Visit W)) × σ) α) :
    List (Visit W) :=
  (stateLeft result).1.2

variable {action : Context → Effect W Unit}

/-- A visit of at most one context notes down what the visit of that context does. -/
theorem length_notes_visitEach {rest : List Subcommand} {index bound : Nat}
    {state : (W × List (Visit W)) × Random} {children : List Context}
    (hlength : children.length ≤ 1) (hnone : state.1.2.length ≤ bound)
    (hone : ∀ c, (notes (visit (noting action) rest index c state)).length ≤ bound) (count : Nat) :
    (notes (visitEach (noting action) rest index count children state)).length ≤ bound := by
  match children, hlength with
  | [], _ => exact hnone
  | [child], _ =>
    have hchild := hone child
    rw [visitEach_cons]
    cases hv : visit (noting action) rest index child state with
    | ok n state' => rw [hv] at hchild; exact hchild
    | error e state' => rw [hv] at hchild; exact hchild

/-- Where no fork is wider than one, at most one run is noted down. -/
theorem length_notes_visit {rest : List Subcommand}
    (hrest : ∀ f, .fork f ∈ rest → f.selector.isSingle) (index : Nat) (c : Context) (world : W)
    (visits : List (Visit W)) (random : Random) :
    (notes (visit (noting action) rest index c ((world, visits), random))).length ≤
      visits.length + 1 := by
  induction rest generalizing index c random with
  | nil =>
    have hleft := congrArg (·.2.length) (stateLeft_noting action c world visits)
    rw [visit_nil]
    cases h : noting action c (world, visits) with
    | ok u state => rw [h] at hleft; exact (hleft.trans List.length_append).le
    | error e state => rw [h] at hleft; exact (hleft.trans List.length_append).le
  | cons s rest ih =>
    rw [visit_cons]
    cases h : s.applyAt index (world, visits) c random with
    | ok children random' =>
      have hchildren := s.length_apply_le (fun f hf => hrest f (hf ▸ List.mem_cons_self))
        (applyAt_eq_ok_iff.1 h)
      exact length_notes_visitEach hchildren (Nat.le_succ _)
        (fun c => ih (fun f hf => hrest f (.tail s hf)) (index + 1) c random') 0
    | error e random' => exact Nat.le_succ _

/-- The count of a visit is that of the runs noted down. -/
theorem length_notes_of_ok {rest : List Subcommand} {index n : Nat} {c : Context} {world : W}
    {random : Random} {state : (W × List (Visit W)) × Random}
    (h : visit (noting action) rest index c ((world, []), random) = .ok n state) :
    state.1.2.length = n := by
  have hk : Keeps (fun n (noted : W × List (Visit W)) => noted.2.length = n) (fun _ _ => True) 0
      (visit (noting action) rest index c ((world, []), random)) := by
    refine keeps_visit (fun n c noted noted' hn ha => ?_) (fun _ _ _ _ _ _ _ => trivial)
      rest index c 0 (world, []) random rfl
    rw [(noting_ok ha).2, List.length_append, hn]
    rfl
  rw [h] at hk
  exact hk.trans (Nat.zero_add n)

end

/-! ## Runs -/

namespace Runner

variable {W : Type} [WorldView W] {chain : Chain} {root : Context}
  {action : Context → Effect W Unit} {world : W} {r : Runner}

theorem notes_run (chain : Chain) (root : Context) (action : Context → Effect W Unit) (world : W)
    (r : Runner) :
    notes (run chain root (noting action) ((world, []), r)) =
      notes (chain.visit root (noting action) ((world, []), r.random)) := by
  rw [run_eq, notes, stateLeft_mapState]
  rfl

/-- Notes do not change a run. -/
theorem run_noting (chain : Chain) (root : Context) (action : Context → Effect W Unit) (world : W)
    (r : Runner) :
    withoutNotes (run chain root (noting action) ((world, []), r)) =
      run chain root action (world, r) := by
  have h := visit_noting action chain.subcommands 0 root world [] r.random
  rw [run_eq, run_eq, Chain.visit, Chain.visit, ← h]
  cases visit (noting action) chain.subcommands 0 root ((world, []), r.random) <;> rfl

theorem length_notes_run_of_ok {n : Nat} {state : W × Runner}
    (h : run chain root action (world, r) = .ok n state) :
    (notes (run chain root (noting action) ((world, []), r))).length = n := by
  have hnoted := run_noting chain root action world r
  rw [notes_run]
  rw [run_eq] at hnoted
  cases hv : chain.visit root (noting action) ((world, []), r.random) with
  | ok m noted =>
    rw [hv, h] at hnoted
    cases hnoted
    exact length_notes_of_ok hv
  | error e noted => rw [hv, h] at hnoted; cases hnoted

end Runner

/-- A selector read as single picks at most one entity, whatever the types, limits,
narrowings and arguments of the registry, the world, the context and the random source
are. So does the holder of any score expression. A chain whose forks all have single
selectors runs its action at most once, as the notes of its run tell, whether the run
succeeds or fails; and the number of runs that it gives is the number noted down. -/
theorem single_selectors (W : Type) [WorldView W] (registry : SelectorRegistry) :
    (∀ text s, Selector.parse registry text = .ok s → s.isSingle →
      ∀ (world : W) c random ids after, s.resolve world c random = .ok ids after →
        ids.length ≤ 1) ∧
    (∀ holder objective a s, ScoreAccess.parse registry holder objective = .ok a →
      a.holder = .selector s →
      ∀ (world : W) c random ids after, s.resolve world c random = .ok ids after →
        ids.length ≤ 1) ∧
    ∀ chain : Chain, (∀ f, .fork f ∈ chain.subcommands → f.selector.isSingle) →
      ∀ root action (world : W) (r : Runner),
        ∃ noted, Runner.run chain root (noting action) ((world, []), r) = noted ∧
          withoutNotes noted = Runner.run chain root action (world, r) ∧
          (notes noted).length ≤ 1 ∧
          ∀ n state, Runner.run chain root action (world, r) = .ok n state →
            n = (notes noted).length := by
  refine ⟨fun text s _ hs world c random ids after h => Selector.length_resolve_le hs h,
    fun holder objective a s ha hs world c random ids after h =>
      Selector.length_resolve_le (ScoreAccess.isSingle_of_parse ha hs) h,
    fun chain hchain root action world r => ⟨_, rfl, ?_, ?_, fun n state h => ?_⟩⟩
  · exact Runner.run_noting chain root action world r
  · rw [Runner.notes_run]
    exact length_notes_visit hchain 0 root world [] r.random
  · exact (Runner.length_notes_run_of_ok h).symm

/-- Two cows, a type whose narrowing lists every candidate twice, and a negative count. -/
theorem single_selectors_doubled :
    let registry := SelectorRegistry.standard.withType
      { SelectorType.plain "d" .random with
        limit := some 1
        narrowing := some fun ids _ => ids ++ ids }
    let w := (World.perform [.spawn (.ofType "cow"), .spawn (.ofType "cow")]).2
    let c := Context.atPoint ⟨0, .server⟩ .overworld .zero
    ∃ s a s', Selector.parse registry "@d[type=cow]" = .ok s ∧ s.isSingle ∧
      ScoreAccess.parse registry "@r[type=cow,c=-1]" "points" = .ok a ∧ a.holder = .selector s' ∧
      (∃ ids after, s.resolve w c (.ofSeed 0) = .ok ids after ∧ ids = [⟨0, 1⟩] ∧
        ids.length ≤ 1) ∧
      (∃ ids after, s'.resolve w c (.ofSeed 0) = .ok ids after ∧ ids = [⟨1, 1⟩] ∧
        ids.length ≤ 1) ∧
      let chain : Chain := ⟨[.fork ⟨.as, s⟩, .redirect (.anchored .eyes), .fork ⟨.at, s'⟩]⟩
      (∀ f, .fork f ∈ chain.subcommands → f.selector.isSingle) ∧
      ∀ (action : Context → Effect World Unit) (r : Runner),
        ∃ noted, Runner.run chain c (noting action) ((w, []), r) = noted ∧
          withoutNotes noted = Runner.run chain c action (w, r) ∧
          (notes noted).length ≤ 1 ∧
          ∀ n state, Runner.run chain c action (w, r) = .ok n state →
            n = (notes noted).length := by
  intro registry w c
  have hdoubled : (Selector.parse registry "@d[type=cow]").toOption.any fun s =>
      s.isSingle ∧ value? (s.resolve w c (.ofSeed 0)) = some [⟨0, 1⟩] := by
    decide +kernel
  have hlast : (ScoreAccess.parse registry "@r[type=cow,c=-1]" "points").toOption.any fun a =>
      HolderExpr.casesOn (motive := fun _ => Bool) a.holder
        (fun s => value? (s.resolve w c (.ofSeed 0)) = some [⟨1, 1⟩]) fun _ => false := by
    decide +kernel
  obtain ⟨s, hs, hpicks⟩ := exists_ok_of_any hdoubled
  obtain ⟨hsingle, hpicks⟩ := of_decide_eq_true hpicks
  obtain ⟨⟨holder, objective⟩, ha, hpicks'⟩ := exists_ok_of_any hlast
  obtain ⟨hread, hheld, hruns⟩ := single_selectors World registry
  cases holder with
  | name n => cases hpicks'
  | selector s' =>
    have hpicks' := of_decide_eq_true hpicks'
    have hsingle' := ScoreAccess.isSingle_of_parse ha rfl
    refine ⟨s, _, s', hs, hsingle, ha, rfl, ?_, ?_, ?_⟩
    · cases hres : s.resolve w c (.ofSeed 0) with
      | error e after => rw [hres] at hpicks; cases hpicks
      | ok ids after =>
        rw [hres] at hpicks
        exact ⟨ids, after, rfl, Option.some.inj hpicks, hread _ s hs hsingle w c _ ids after hres⟩
    · cases hres : s'.resolve w c (.ofSeed 0) with
      | error e after => rw [hres] at hpicks'; cases hpicks'
      | ok ids after =>
        rw [hres] at hpicks'
        exact ⟨ids, after, rfl, Option.some.inj hpicks', hheld _ _ _ s' ha rfl w c _ ids after hres⟩
    · intro chain
      have hforks : ∀ f, .fork f ∈ chain.subcommands → f.selector.isSingle := by
        intro f hf
        rcases List.mem_cons.1 hf with hfirst | hrest
        · cases hfirst
          exact hsingle
        · rcases List.mem_cons.1 hrest with hsecond | hlast
          · cases hsecond
          · cases List.mem_singleton.1 hlast
            exact hsingle'
      exact ⟨hforks, fun action r => hruns chain hforks c action w r⟩

end CommandChain
