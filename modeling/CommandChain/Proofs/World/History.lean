import CommandChain.Proofs.Entity.History
import CommandChain.Proofs.World.Operation

/-!
# Worlds as maps of records

`recordAfter` reads the record of an id off the events of a world: the record it
was handed out with, changed by the edits under that id, until the id is removed.
`mirrors_perform` says that a world is this map. The id store and the record map
of a world keep in step through every event (`Mirrors.after`), as long as no slot
runs out of generations.
-/

namespace CommandChain.World

/-- The record of an id after one more event. -/
def Event.update (id : EntityId) (record : Option Entity) : Event → Option Entity
  | handedOut id' e => if id = id' then some e else record
  | removed id' => if id = id' then none else record
  | edited id' f => if id = id' then record.map f else record
  | other => record

/-- The record that an id has after some events. -/
def recordAfter (events : List Event) (id : EntityId) : Option Entity :=
  events.foldl (Event.update id) none

def Event.newId? : Event → Option EntityId
  | handedOut id _ => some id
  | _ => none

/-- The ids handed out, in that order. -/
def handedOut (events : List Event) : List EntityId := events.filterMap Event.newId?

/-- The ids handed out that still have a record. -/
def tracked (events : List Event) : List EntityId :=
  (handedOut events).filter fun id => (recordAfter events id).isSome

/-- No entity is removed whose slot has no further generation. -/
def NoOverflow (events : List Event) : Prop :=
  ∀ id, Event.removed id ∈ events → id.generation.toNat + 1 < UInt32.size

/-- The world is the map that the events make. -/
structure Mirrors (w : World) (events : List Event) : Prop where
  records : ∀ id, w.entities.get? id = recordAfter events id
  nodup : (handedOut events).Nodup
  /-- No slot goes back to an earlier generation. -/
  past : ∀ id ∈ handedOut events,
    ∃ g, w.store.generations[id.index]? = some g ∧ id.generation.toNat ≤ g.toNat
  known : ∀ id, (recordAfter events id).isSome → id ∈ handedOut events
  count : w.store.live = (tracked events).length

/-! ## The events of the id store -/

/-- What an event was to the id store. -/
def Event.onIds : Event → List EntityStore.Event
  | handedOut id _ => [.allocated id]
  | removed id => [.released id]
  | edited _ _ => []
  | other => []

/-- The events of the id store. -/
def idEvents (events : List Event) : List EntityStore.Event := events.flatMap Event.onIds

section

variable {w w' : World} {events : List Event} {event : Event} {id : EntityId}

theorem idEvents_concat : idEvents (events ++ [event]) = idEvents events ++ event.onIds := by
  simp [idEvents]

theorem handedOut_idEvents (events : List Event) :
    EntityStore.handedOut (idEvents events) = handedOut events := by
  rw [EntityStore.handedOut, idEvents, List.filterMap_flatMap, handedOut]
  induction events with
  | nil => rfl
  | cons event events ih =>
    rw [List.flatMap_cons, ih]
    cases event <;> rfl

theorem released_mem_idEvents : .released id ∈ idEvents events ↔ .removed id ∈ events := by
  rw [idEvents, List.mem_flatMap]
  constructor
  · rintro ⟨event, hm, hr⟩
    cases event with
    | removed id' => cases List.mem_singleton.1 hr; exact hm
    | handedOut => cases List.mem_singleton.1 hr
    | edited | other => cases hr
  · intro h
    exact ⟨_, h, List.mem_cons_self⟩

/-- The id store keeps in step with every event. -/
theorem recounts_after (h : w.store.Recounts (idEvents events)) (he : Happens w w' event)
    (hgen : NoOverflow [event]) : w'.store.Recounts (idEvents (events ++ [event])) := by
  rw [idEvents_concat]
  cases he with
  | handedOut e hs _ => rw [hs]; exact h.allocated
  | removed hs _ => exact h.released hs (hgen _ List.mem_cons_self)
  | edited _ hs _ => rw [hs, Event.onIds, List.append_nil]; exact h
  | other hs _ => rw [hs, Event.onIds, List.append_nil]; exact h

theorem records_after (h : ∀ id, w.entities.get? id = recordAfter events id)
    (he : Happens w w' event) (id : EntityId) :
    w'.entities.get? id = recordAfter (events ++ [event]) id := by
  rw [recordAfter, List.foldl_concat, ← recordAfter, ← h]
  cases he with
  | handedOut e _ hr => rw [hr, OrderedMap.get?_insert]; simp [Event.update]
  | removed _ hr => rw [hr, OrderedMap.get?_erase]; simp [Event.update]
  | edited _ _ hr => rw [hr, OrderedMap.get?_modify]; simp [Event.update]
  | other _ hr => rw [hr, Event.update]

end

section

variable (operations : List Operation)

theorem records_perform (id : EntityId) :
    (perform operations).2.entities.get? id = recordAfter (perform operations).1 id := by
  induction operations using List.reverseRecOn generalizing id with
  | nil => rfl
  | append_singleton operations op ih =>
    rw [perform_concat]
    exact records_after ih (happens op _) id

theorem recounts_perform (hgen : NoOverflow (perform operations).1) :
    (perform operations).2.store.Recounts (idEvents (perform operations).1) := by
  induction operations using List.reverseRecOn with
  | nil => exact EntityStore.recounts_empty
  | append_singleton operations op ih =>
    rw [perform_concat] at hgen ⊢
    exact recounts_after (ih fun id hid => hgen id (List.mem_append_left _ hid)) (happens op _)
      fun id hid => hgen id (List.mem_append_right _ hid)

end

/-! ## Conditions on calls -/

/-- Every call meets a condition on the events and the world before it. -/
def Throughout (P : Operation → List Event × World → Prop) (operations : List Operation) : Prop :=
  ∀ before op after, operations = before ++ op :: after → P op (perform before)

section

variable {P : Operation → List Event × World → Prop} {operations : List Operation} {op : Operation}

theorem throughout_nil : Throughout P [] := fun before op after h => by
  simp at h

theorem throughout_concat :
    Throughout P (operations ++ [op]) ↔ Throughout P operations ∧ P op (perform operations) := by
  simp only [Throughout, concat_eq_iff]
  constructor
  · exact fun h => ⟨fun before op' later he => h before op' _ (.inr ⟨later, rfl, he⟩),
      h operations op [] (.inl ⟨rfl, rfl, rfl⟩)⟩
  · rintro ⟨h, hlast⟩ before op' after (⟨-, rfl, rfl⟩ | ⟨later, -, he⟩)
    · exact hlast
    · exact h before op' later he

end

/-! ## The map of records -/

/-- In a consistent world an id has a record exactly if it was handed out and not removed. -/
theorem isSome_record_iff {w : World} {events : List Event} (hw : w.Consistent)
    (h : w.store.Recounts (idEvents events)) (id : EntityId) :
    (w.entities.get? id).isSome ↔ id ∈ handedOut events ∧ .removed id ∉ events := by
  rw [← hw.holds_iff, h.holds_iff, handedOut_idEvents, released_mem_idEvents]

theorem mirrors_perform (operations : List Operation)
    (hgen : NoOverflow (perform operations).1) :
    Mirrors (perform operations).2 (perform operations).1 := by
  have hids := recounts_perform operations hgen
  have hrecord := records_perform operations
  have hsome := isSome_record_iff (consistent_perform operations) hids
  refine ⟨hrecord, ?_, fun id hid => ?_, fun id hid => ?_, ?_⟩
  · rw [← handedOut_idEvents]
    exact hids.nodup
  · rw [← handedOut_idEvents] at hid
    exact hids.exists_generation hid
  · rw [← hrecord, hsome] at hid
    exact hid.1
  · rw [hids.live_eq, EntityStore.unreleased, handedOut_idEvents]
    refine congrArg List.length (List.filter_congr fun id hid => ?_)
    rw [← hrecord, Bool.eq_iff_iff, hsome, decide_eq_true_iff, released_mem_idEvents]
    exact (and_iff_right hid).symm

/-- A world is the map from the ids handed out to their records: it finds exactly
the record that the events give an id, no id is handed out twice, and it counts
the ids that have a record. A call that fails changes nothing. -/
theorem perform_is_map (operations : List Operation)
    (hgen : NoOverflow (perform operations).1) :
    (∀ id, (perform operations).2.entity? id = recordAfter (perform operations).1 id) ∧
    (handedOut (perform operations).1).Nodup ∧
    (perform operations).2.entityCount = (tracked (perform operations).1).length ∧
    ∀ (op : Operation) (e : Error) (w : World),
      op.run (perform operations).2 = .error e w → w = (perform operations).2 := by
  have h := mirrors_perform operations hgen
  refine ⟨fun id => ?_, h.nodup, h.count, fun op e w => run_error⟩
  rw [(consistent_perform operations).entity?_eq, h.records]

/-- Two entities, of which the first is removed and its slot used again; then a
call under its old id. -/
def slotReuse : List Operation :=
  [.spawn (.ofType "cow"), .spawn (.ofPlayer "Alex"), .despawn ⟨0, 1⟩, .spawn (.ofType "pig"),
    .addTag ⟨0, 3⟩ "boss", .addTag ⟨0, 1⟩ "lost"]

theorem perform_is_map_slotReuse :
    NoOverflow (perform slotReuse).1 ∧
    (perform slotReuse).2.entity? ⟨0, 1⟩ = none ∧ (perform slotReuse).2.entityCount = 2 ∧
    handedOut (perform slotReuse).1 = [⟨0, 1⟩, ⟨1, 1⟩, ⟨0, 3⟩] := by
  have hgen : NoOverflow (perform slotReuse).1 := by
    intro id hid
    have hevents : (perform slotReuse).1 = [.handedOut ⟨0, 1⟩ (.ofType "cow"),
        .handedOut ⟨1, 1⟩ (.ofPlayer "Alex"), .removed ⟨0, 1⟩, .handedOut ⟨0, 3⟩ (.ofType "pig"),
        .edited ⟨0, 3⟩ fun e => { e with tags := e.tags.add "boss" }, .other] := rfl
    rw [hevents] at hid
    obtain rfl : id = ⟨0, 1⟩ := by simpa using hid
    decide
  obtain ⟨hrecord, -, hcount, -⟩ := perform_is_map slotReuse hgen
  exact ⟨hgen, by rw [hrecord]; rfl, by rw [hcount]; rfl, rfl⟩

end CommandChain.World
