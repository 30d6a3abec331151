import CommandChain.Proofs.Selector.Resolution
import CommandChain.Proofs.Selector.RoundTrip
import CommandChain.Proofs.World.History

/-!
# Ids of removed entities

A slot is used again as soon as it is free, so contexts and scores outlive the
entities that they were made for. The id of a removed entity still reaches nothing
(`Gone`), and the entity that takes over its slot inherits no score, as long as
scores are set under ids that were handed out (`gone_of_removed`).
-/

namespace CommandChain

namespace Selector

/-- The type of `@s`. -/
def selfType : SelectorType :=
  { (SelectorType.plain "s" .nearest).single with narrowing := some executorOnly }

theorem type?_selfType : SelectorRegistry.standard.type? "s" = some selfType := by cbv

end Selector

namespace World

/-! ## Calls about an entity -/

/-- The entity that a call is about. -/
def Operation.subject? : Operation → Option EntityId
  | despawn id => some id
  | edit id _ => some id
  | addTag id _ => some id
  | removeTag id _ => some id
  | submit (.entity id) _ => some id
  | _ => none

section

variable {w : World} {id : EntityId}

theorem holds_of_submit {command : String} {r : Nat × World}
    (h : w.submit (.entity id) command = .ok r) : w.store.Holds id := by
  cases hv : w.store.validate id with
  | ok u => exact EntityStore.holds_of_validate hv
  | error e =>
    simp only [submit, hv, bind, Except.bind, throw, throwThe, MonadExceptOf.throw] at h
    split at h <;> cases h

/-- A call about an entity is carried out only if its id is in use. -/
theorem holds_of_run {op : Operation} {answer : Option EntityId} {w' : World}
    (hid : op.subject? = some id) (h : op.run w = .ok answer w') : w.store.Holds id := by
  cases op with
  | despawn id' =>
    cases hid
    exact (EntityStore.release_ok (despawn_ok (change_of_ok h)).1).1
  | edit id' f => cases hid; exact (edit_ok (change_of_ok h)).1
  | addTag id' tag => cases hid; exact (edit_ok (change_of_ok h)).1
  | removeTag id' tag => cases hid; exact (edit_ok (change_of_ok h)).1
  | submit source command =>
    cases source with
    | entity id' =>
      cases hid
      rw [run_submit] at h
      cases hs : w.submit (.entity id) command with
      | ok r => exact holds_of_submit hs
      | error e => rw [hs] at h; cases h
    | dimension d => cases hid
  | spawn | setBlock | addDimension | updateScores | reject => cases hid

/-! ## Ids that reach nothing -/

/-- The id reaches no entity. -/
structure Gone (w : World) (id : EntityId) : Prop where
  untracked : w.entity? id = none
  /-- Calls about it fail and change nothing. -/
  refused : ∀ op : Operation, op.subject? = some id → ∃ e, op.run w = .error e w
  nowhere : ∀ c : Context, c.position = .bound id →
    c.point w = .error (Fault.entityNotFound id)
  /-- `@s` does not find it, whatever its arguments. -/
  unselected : ∀ (text : String) (s : Selector), Selector.parse .standard text = .ok s →
    s.type.name = "s" → ∀ (c : Context) (here : Vec3) (random : Random),
      c.executor = some id → c.point w = .ok here → ∃ random', s.resolve w c random = .ok [] random'

theorem Consistent.gone (hw : w.Consistent) (h : ¬ w.store.Holds id) : Gone w id := by
  have hrecord : w.entity? id = none := by
    rw [hw.entity?_eq, ← Option.not_isSome_iff_eq_none, ← hw.holds_iff]
    exact h
  refine ⟨hrecord, fun op hid => ?_, fun c hc => ?_, fun text s hs ht c here random hex hp => ?_⟩
  · cases hr : op.run w with
    | ok answer w' => exact absurd (holds_of_run hid hr) h
    | error e w' => exact ⟨e, run_error hr ▸ rfl⟩
  · have hview : WorldView.entity? w id = none := hrecord
    simp only [Context.point, hc, Context.record, hview]
    rfl
  · have hst := Selector.standard_of_parse hs
    obtain ⟨centre, hcentre⟩ := Selector.exists_centre hp
    obtain ⟨listed, random', -, hmem, hres⟩ := Selector.exists_listed hw hst hcentre random
    -- only the executor could be picked, and it has no record
    have hnone : s.limited listed = [] := by
      refine List.eq_nil_iff_forall_not_mem.2 fun id' hid' => ?_
      obtain ⟨e, he, hsel⟩ := (hmem id').1 (s.limited_subset listed hid')
      obtain rfl : id = id' := Option.some.inj (hex.symm.trans (hsel.executor ht))
      rw [hrecord] at he
      cases he
    exact ⟨random', hnone ▸ hres⟩

end

/-! ## Scores -/

/-- A score that an entity has only after the call stands under an id handed out. -/
def Operation.ScoresKnown : Operation → List Event × World → Prop
  | updateScores f, (events, w) => ∀ objective id,
    ((f w.scoreboard).get? objective (.entity id)).isSome →
      (w.scoreboard.get? objective (.entity id)).isSome ∨ id ∈ handedOut events
  | _, _ => True

/-- A score may be set under an id handed out. -/
theorem scoresKnown_set {events : List Event} {id : EntityId} (h : id ∈ handedOut events)
    (w : World) (objective : String) (value : Int64) :
    (Operation.updateScores (·.set objective (.entity id) value)).ScoresKnown (events, w) := by
  intro objective' id' hid
  rw [Scoreboard.get?_set] at hid
  split at hid
  · next hset => cases hset.2; exact .inr h
  · exact .inl hid

theorem handedOut_of_scored {operations : List Operation}
    (h : Throughout Operation.ScoresKnown operations) {objective : String} {id : EntityId}
    (hid : ((perform operations).2.scoreboard.get? objective (.entity id)).isSome) :
    id ∈ handedOut (perform operations).1 := by
  induction operations using List.reverseRecOn with
  | nil => cases hid
  | append_singleton operations op ih =>
    obtain ⟨hbefore, hop⟩ := throughout_concat.1 h
    rw [perform_concat] at hid ⊢
    rw [(next_frame op _).2] at hid
    have hmem : id ∈ handedOut (perform operations).1 := by
      cases op with
      | updateScores f => exact (hop objective id hid).elim (ih hbefore) fun hnew => hnew
      | _ => exact ih hbefore hid
    rw [handedOut, List.filterMap_append]
    exact List.mem_append_left _ hmem

/-! ## Histories -/

/-- After any calls the id of an entity that was removed reaches nothing, and the next
entity has no score. -/
theorem gone_of_removed (operations : List Operation)
    (hgen : NoOverflow (perform operations).1)
    (hscores : Throughout Operation.ScoresKnown operations) :
    (∀ id, .removed id ∈ (perform operations).1 → Gone (perform operations).2 id) ∧
    ∀ (e : Entity) (objective : String),
      ((perform operations).2.spawn e).2.scoreboard.get? objective
        (.entity ((perform operations).2.spawn e).1) = none := by
  have hids := recounts_perform operations hgen
  refine ⟨fun id hid => ?_, fun e objective => ?_⟩
  · refine (consistent_perform operations).gone fun hh => ?_
    exact ((hids.holds_iff id).1 hh).2 (released_mem_idEvents.2 hid)
  · rw [← Option.not_isSome_iff_eq_none]
    intro hscore
    have hold := handedOut_of_scored hscores hscore
    rw [← handedOut_idEvents] at hold
    exact hids.allocate_fresh hold

/-- A cow with a score is removed, a pig takes its slot and is removed in turn. -/
theorem gone_of_removed_twice :
    let operations : List Operation := [.spawn (.ofType "cow"),
      .updateScores (·.set "kills" (.entity ⟨0, 1⟩) 3), .despawn ⟨0, 1⟩, .spawn (.ofType "pig"),
      .despawn ⟨0, 3⟩]
    let w := (perform operations).2
    NoOverflow (perform operations).1 ∧ Throughout Operation.ScoresKnown operations ∧
      Gone w ⟨0, 1⟩ ∧ Gone w ⟨0, 3⟩ ∧
      (∃ s, Selector.parse .standard "@s" = .ok s ∧ s.type.name = "s") ∧
      w.scoreboard.get? "kills" (.entity ⟨0, 1⟩) = some 3 ∧
      (w.spawn (.ofType "cat")).1 = ⟨0, 5⟩ ∧
      (w.spawn (.ofType "cat")).2.scoreboard.get? "kills" (.entity ⟨0, 5⟩) = none := by
  intro operations w
  have hevents : (perform operations).1 = [.handedOut ⟨0, 1⟩ (.ofType "cow"), .other,
      .removed ⟨0, 1⟩, .handedOut ⟨0, 3⟩ (.ofType "pig"), .removed ⟨0, 3⟩] := rfl
  have hgen : NoOverflow (perform operations).1 := by
    intro id hid
    have hid : id = ⟨0, 1⟩ ∨ id = ⟨0, 3⟩ := by simpa [hevents] using hid
    rcases hid with rfl | rfl <;> decide
  have hscores : Throughout Operation.ScoresKnown operations := by
    change Throughout _ ([] ++ [_] ++ [_] ++ [_] ++ [_] ++ [_])
    simp only [throughout_concat]
    exact ⟨⟨⟨⟨⟨throughout_nil, trivial⟩, scoresKnown_set (by decide) _ _ _⟩, trivial⟩, trivial⟩,
      trivial⟩
  have hparse : Selector.parse .standard ("@" ++ "s") = .ok ⟨Selector.selfType, ∅⟩ :=
    Selector.parse_bare (List.all_eq_true.1 (by decide)) Selector.type?_selfType
  obtain ⟨hgone, hnew⟩ := gone_of_removed operations hgen hscores
  exact ⟨hgen, hscores, hgone _ (by rw [hevents]; simp), hgone _ (by rw [hevents]; simp),
    ⟨_, hparse, rfl⟩, rfl, rfl, hnew (.ofType "cat") "kills"⟩

end World

end CommandChain
