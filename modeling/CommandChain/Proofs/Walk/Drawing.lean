import CommandChain.Chain.Parser
import CommandChain.Proofs.Chain.Invariant
import CommandChain.Proofs.Subcommand.Drawing
import CommandChain.Proofs.Walk.Course
import CommandChain.Proofs.World.Operation

/-!
# Chains without random order

A chain whose selectors are all ordered by distance does the same from every random
source, and leaves the source as it was: the eager visit and the walk, whatever the worlds
(`Chain.Ordered.same_from_any_source`). For a walk this is said as a law of one pull, which
commutes with replacing the random source (`Walk.pull_withRandom`), and so do any number of
pulls.
-/

namespace CommandChain

variable {W : Type} [WorldView W]

namespace Walk

/-- The walk with another random source. -/
def withRandom (w : Walk) (random : Random) : Walk := { w with random }

/-! ## One pull -/

theorem arrive_withRandom {s : Subcommand} {isLast : Bool} {index : Nat} {child : Context}
    {onward : Effect Walk (Option Step)} {w : Walk} {random : Random}
    (h : onward (w.withRandom random) = mapState (·.withRandom random) (onward w)) :
    arrive s isLast index child onward (w.withRandom random) =
      mapState (·.withRandom random) (arrive s isLast index child onward w) := by
  unfold arrive
  split
  · rfl
  · split
    · rfl
    · exact h

theorem descend_withRandom {rest : List Subcommand} (h : ∀ s ∈ rest, AllNearest s.selectors)
    (world : W) (index : Nat) (c : Context) (w : Walk) (random : Random) :
    descend world rest index c (w.withRandom random) =
      mapState (·.withRandom random) (descend world rest index c w) := by
  induction rest generalizing index c w with
  | nil => rfl
  | cons s rest ih =>
    obtain ⟨hs, hrest⟩ := List.forall_mem_cons.1 h
    obtain ⟨r, hr⟩ := Subcommand.drawsNothing_applyAt hs index world c
    simp only [descend, hr]
    cases r with
    | error e => rfl
    | ok children =>
      cases children with
      | nil => rfl
      | cons child children =>
        let pushed : Walk := { w with frames := push index children w.frames }
        exact arrive_withRandom (w := pushed) (ih hrest (index + 1) child pushed)

variable {w : Walk}

theorem resume_withRandom (h : w.chain.Ordered) (world : W) (random : Random) :
    resume world (w.withRandom random) = mapState (·.withRandom random) (resume world w) := by
  simp only [resume, withRandom]
  cases next? w.frames with
  | none => rfl
  | some next =>
    obtain ⟨child, index, frames⟩ := next
    dsimp only
    cases hdrop : w.chain.subcommands.drop index with
    | nil => rfl
    | cons s rest =>
      have hrest : ∀ s ∈ rest, AllNearest s.selectors := by
        intro s' hs'
        have hmem : s' ∈ w.chain.subcommands.drop index := hdrop ▸ .tail s hs'
        exact h s' (List.mem_of_mem_drop hmem)
      let popped : Walk := { w with frames }
      exact arrive_withRandom (w := popped)
        (descend_withRandom hrest world (index + 1) child popped random)

/-- A pull commutes with replacing the random source: it draws nothing. -/
theorem pull_withRandom (h : w.chain.Ordered) (world : W) (random : Random) :
    pull world (w.withRandom random) = mapState (·.withRandom random) (pull world w) := by
  obtain ⟨chain, frames, pending, old⟩ := w
  cases pending with
  | none => exact resume_withRandom h world random
  | some next =>
    have hrest : ∀ s ∈ chain.subcommands.drop next.2, AllNearest s.selectors :=
      fun s hs => h s (List.mem_of_mem_drop hs)
    exact descend_withRandom hrest world next.2 next.1 (above chain frames old) random

/-! ## Pulls one after the other -/

theorem after_withRandom (hw : w.Sound) (h : w.chain.Ordered) (worlds : Nat → W)
    (random : Random) (n : Nat) :
    (w.withRandom random).after worlds n = (w.after worlds n).withRandom random := by
  induction n with
  | zero => rfl
  | succ n ih =>
    have hordered : (w.after worlds n).chain.Ordered := (hw.after worlds n).1.symm ▸ h
    rw [after, after, ih, pull_withRandom hordered, stateLeft_mapState]

theorem pulled_withRandom (hw : w.Sound) (h : w.chain.Ordered) (worlds : Nat → W)
    (random : Random) (n : Nat) :
    (w.withRandom random).pulled worlds n =
      mapState (·.withRandom random) (w.pulled worlds n) := by
  have hordered : (w.after worlds n).chain.Ordered := (hw.after worlds n).1.symm ▸ h
  rw [pulled, pulled, after_withRandom hw h, pull_withRandom hordered]

end Walk

/-- Without a selector of random order, a visit runs its action in the same contexts from
the same worlds and comes to the same count or error and the same world, and every pull of
a walk gives the same step or error, whatever the random source; which is left as it was. -/
theorem Chain.Ordered.same_from_any_source {chain : Chain} (h : chain.Ordered) (root : Context) :
    (∀ (action : Context → Effect W Unit) (world : W),
      ∃ (visits : List (Visit W)) (r : EStateM.Result Error W Nat), ∀ random,
        chain.visit root action (world, random) = mapState (·, random) r ∧
        chain.visit root (noting action) ((world, []), random) =
          mapState (fun world' => ((world', visits), random)) r) ∧
    ∀ worlds : Nat → W, ∃ pulls : Nat → EStateM.Result Error Walk (Option Step), ∀ random n,
      (Walk.start chain root random).pulled worlds n =
        mapState (·.withRandom random) (pulls n) := by
  refine ⟨fun action world => ?_, fun worlds => ?_⟩
  · obtain ⟨noted, hnoted⟩ := h.exists_visit root (noting action) (world, [])
    refine ⟨(stateLeft noted).2, mapState Prod.fst noted, fun random => ⟨?_, ?_⟩⟩
    · have hvisit := visit_noting action chain.subcommands 0 root world [] random
      rw [Chain.visit, ← hvisit]
      rw [Chain.visit] at hnoted
      rw [hnoted]
      cases noted <;> rfl
    · rw [hnoted]
      cases noted <;> rfl
  · let w := Walk.start chain root (.ofSeed 0)
    have hw : w.Sound := Walk.sound_start chain root (.ofSeed 0)
    exact ⟨w.pulled worlds, Walk.pulled_withRandom hw h worlds⟩

/-- The cow has killed and there is no player. -/
theorem Chain.Ordered.same_from_any_source_killer :
    let w := (World.perform [.spawn (.ofType "pig"), .spawn (.ofType "cow"),
      .updateScores (·.set "kills" (.entity ⟨1, 1⟩) 3)]).2
    let root := Context.atPoint ⟨0, .server⟩ .overworld .zero
    let mark (c : Context) : Effect World Unit :=
      c.executor.elim (pure ()) fun id => Host.addTag id "seen"
    ∃ chain, Chain.parse .standard [.fork .as "@e[type=cow]",
        .guard false (.scoreMatches "@s[type=cow]" "kills" "1.."),
        .guard true (.entity "@a")] = .ok chain ∧
      chain.Ordered ∧ ∃ (visits : List (Visit World)) (r : EStateM.Result Error World Nat),
        visits.map (·.context.executor) = [some ⟨1, 1⟩] ∧ ∀ random,
          chain.visit root mark (w, random) = mapState (·, random) r := by
  intro w root mark
  have hall : (Chain.parse .standard [.fork .as "@e[type=cow]",
      .guard false (.scoreMatches "@s[type=cow]" "kills" "1.."),
      .guard true (.entity "@a")]).toOption.any fun chain => chain.Ordered ∧
        (stateLeft (chain.visit root (noting mark) ((w, []), .ofSeed 1))).1.2.map
          (·.context.executor) = [some ⟨1, 1⟩] := by
    decide +kernel
  obtain ⟨chain, hchain, hboth⟩ := exists_ok_of_any hall
  obtain ⟨h, hleft⟩ := of_decide_eq_true hboth
  obtain ⟨visits, r, hsame⟩ := (h.same_from_any_source root).1 mark w
  rw [(hsame (.ofSeed 1)).2, stateLeft_mapState] at hleft
  exact ⟨chain, hchain, h, visits, r, hleft, fun random => (hsame random).1⟩

end CommandChain
