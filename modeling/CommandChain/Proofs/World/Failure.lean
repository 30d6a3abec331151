import CommandChain.Proofs.Chain.Failure
import CommandChain.Proofs.World.Dimensions

/-!
# Errors of chains on worlds kept in memory

With selectors of the standard registry and a consistent world, as calls on worlds keep
it, only the errors that a subcommand is meant to have are left
(`Subcommand.failsBy_apply`): a fork finds every entity that it picks
(`Selector.tracked_of_resolve`), and `m` names game modes. So a feasible subcommand is
applied wherever its context has a point, and an error of a run that is not its action's
names the subcommand (`fails_as_meant`).
-/

namespace CommandChain

variable {w : World} {c : Context}

/-- What a selector picks has a record. -/
theorem Selector.tracked_of_resolve {s : Selector} (hw : w.Consistent) (hs : s.Standard)
    {random random' : Random} {ids : List EntityId}
    (h : s.resolve w c random = .ok ids random') {id : EntityId} (hid : id ∈ ids) :
    ∃ e, w.entity? id = some e := by
  cases hc : s.centre w c with
  | error e =>
    unfold resolve at h
    rw [hc] at h
    cases h
  | ok centre =>
    obtain ⟨listed, random'', -, hmem, hres⟩ := exists_listed hw hs hc random
    rw [h] at hres
    cases hres
    obtain ⟨e, he, -⟩ := (hmem id).1 (s.limited_subset listed hid)
    exact ⟨e, he⟩

namespace Subcommand

variable {s : Subcommand}

theorem failsBy_apply (hw : w.Consistent) (hs : ∀ selector ∈ s.selectors, selector.Standard)
    (c : Context) : (s.apply w c).Raises (s.FailsBy w c) := by
  intro random e random' h
  cases s.fails_apply w c random e random' h with
  | meant h => exact h
  | noMode hmem hmodes => exact absurd (hs _ hmem).modes.namesModes hmodes
  | lost hf hids hid hnone =>
    subst hf
    obtain ⟨e, he⟩ := Selector.tracked_of_resolve hw (hs _ List.mem_cons_self) hids hid
    cases hnone.symm.trans he

/-- Where the context has a point, a feasible subcommand is applied. -/
theorem exists_apply (hw : w.Consistent) (hs : ∀ selector ∈ s.selectors, selector.Standard)
    {here : Vec3} (hc : c.point w = .ok here) (h : s.Feasible w) (random : Random) :
    ∃ children random', s.apply w c random = .ok children random' := by
  cases ha : s.apply w c random with
  | ok children random' => exact ⟨children, random', rfl⟩
  | error e random' =>
    cases failsBy_apply hw hs c random e random' ha with
    | unbound hbound hid =>
      simp only [Context.point, hbound, Context.record, hid] at hc
      cases hc
    | mixed hp hmixed => exact absurd hmixed (h.unmixed _ hp)
    | localRotation hr hlocal => exact absurd hlocal (h.noLocal _ hr)
    | unknownDimension hd hunknown => exact absurd (h.registered _ hd) hunknown

end Subcommand

/-- The subcommands of a chain of standard selectors fail only as they are meant to, and
where the context has a point they are applied exactly if they are feasible. An error of
a run is that of its last action, or that of a subcommand after all actions were carried
out, with the text and the number of that subcommand as its place. -/
theorem fails_as_meant (hw : w.Consistent) {chain : Chain}
    (hparsed : ∀ s ∈ chain.subcommands, ∀ selector ∈ s.selectors,
      ∃ text, Selector.parse .standard text = .ok selector) :
    (∀ s ∈ chain.subcommands, ∀ (c : Context) (random : Random),
      (∀ e random', s.apply w c random = .error e random' → s.FailsBy w c e) ∧
      ∀ here, c.point w = .ok here →
        ((∃ children random', s.apply w c random = .ok children random') ↔ s.Feasible w)) ∧
    ∀ {V : Type} [WorldView V] (root : Context) (action : Context → Effect V Unit)
      (world world' : V) (r r' : Runner) (e : Error),
      Runner.run chain root action (world, r) = .error e (world', r') →
      ∃ visits,
        Runner.run chain root (noting action) ((world, []), r) = .error e ((world', visits), r') ∧
        (LastFailed action visits e world' ∨
          (∀ v ∈ visits, v.Succeeds action) ∧
            ∃ index s c random fault, chain.get? index = some s ∧
              s.apply world' c random = .error ⟨fault, none⟩ r'.random ∧
              e = ⟨fault, some ⟨some (toString s), some index⟩⟩) := by
  refine ⟨fun s hs c random => ?_, fun root action world world' r r' e => Runner.run_error⟩
  have hstandard : ∀ selector ∈ s.selectors, selector.Standard := fun selector hsel => by
    obtain ⟨text, hparse⟩ := hparsed s hs selector hsel
    exact Selector.standard_of_parse hparse
  refine ⟨fun e random' => Subcommand.failsBy_apply hw hstandard c random e random',
    fun here hc => ⟨?_, fun h => Subcommand.exists_apply hw hstandard hc h random⟩⟩
  rintro ⟨children, random', h⟩
  exact Subcommand.feasible_of_apply h

/-- Every entity is to go to a dimension that is not registered. -/
theorem fails_as_meant_aether :
    let w := (World.perform [.spawn (.ofType "cow")]).2
    let everyone : Subcommand := .fork ⟨.as, Selector.everyone⟩
    let chain : Chain := ⟨[everyone, .redirect (.inDimension (.named "aether"))]⟩
    let root := Context.atPoint ⟨0, .server⟩ .overworld .zero
    w.Consistent ∧
      (∀ s ∈ chain.subcommands, ∀ selector ∈ s.selectors,
        ∃ text, Selector.parse .standard text = .ok selector) ∧
      (∃ children random', everyone.apply w root (.ofSeed 1) = .ok children random') ∧
      ∃ e w' r', Runner.run chain root (fun _ => pure ()) (w, default) = .error e (w', r') ∧
        ∃ index s, chain.get? index = some s ∧
          e.place = some ⟨some (toString s), some index⟩ := by
  intro w everyone chain root
  have hw : w.Consistent := World.consistent_perform _
  have hparsed : ∀ s ∈ chain.subcommands, ∀ selector ∈ s.selectors,
      ∃ text, Selector.parse .standard text = .ok selector := by
    intro s hs selector hsel
    simp only [chain, List.mem_cons, List.not_mem_nil, or_false] at hs
    rcases hs with rfl | rfl
    · cases List.mem_singleton.1 hsel
      exact ⟨_, Selector.parse_everyone⟩
    · cases hsel
  obtain ⟨happly, hrun⟩ := fails_as_meant hw hparsed
  have heveryone := (happly _ List.mem_cons_self root (.ofSeed 1)).2 .zero rfl
  refine ⟨hw, hparsed, heveryone.2 ⟨nofun, nofun, nofun⟩, ?_⟩
  cases h : Runner.run chain root (fun _ => pure ()) (w, default) with
  | ok n state =>
    have hfails : (error? (Runner.run chain root (fun _ => pure ()) (w, default))).isSome := by
      decide +kernel
    rw [h] at hfails
    cases hfails
  | error e state =>
    refine ⟨e, state.1, state.2, rfl, ?_⟩
    obtain ⟨visits, -, hlast | ⟨-, index, s, c, random, fault, hs, -, rfl⟩⟩ :=
      hrun root (fun _ => pure ()) w state.1 default state.2 e h
    · obtain ⟨_, v, -, -, hfailed⟩ := hlast
      cases hfailed
    · exact ⟨index, s, hs, rfl⟩

end CommandChain
