import CommandChain.Proofs.Collection.OrderedMap
import CommandChain.Proofs.Renderer
import CommandChain.Proofs.World.Operation

/-!
# Submissions to worlds kept in memory

While a command is submitted from a context bound to an entity, the entity carries a
marker, and the marker is removed whether or not the command was accepted. So what a
submission leaves is the world without the marker on that entity, with the command
logged if it was accepted (`submit_cases`).

Nothing else changes (`submit_frame`). But the marker goes even if the entity carried
it before (`submit_removes_carried_tag`): that the number is new to the renderer does
not make the tag new to the world.
-/

namespace CommandChain

namespace Entity

def withTag (tag : String) (e : Entity) : Entity := { e with tags := e.tags.add tag }

def withoutTag (tag : String) (e : Entity) : Entity := { e with tags := e.tags.remove tag }

theorem withoutTag_withTag (tag : String) (e : Entity) :
    (e.withTag tag).withoutTag tag = e.withoutTag tag := by
  simp only [withTag, withoutTag, OrderedSet.remove_add]

theorem withoutTag_eq_self_iff {tag : String} {e : Entity} :
    e.withoutTag tag = e ↔ e.tags.has tag = false := by
  constructor
  · intro h
    rw [← h]
    exact OrderedSet.has_remove e.tags tag
  · intro h
    rw [withoutTag, OrderedSet.remove_of_not_has h]

end Entity

namespace World

variable {w : World} {id : EntityId}

/-! ## Records -/

/-- The world with another record of an entity. -/
def withRecord (w : World) (id : EntityId) (f : Entity → Entity) : World :=
  { w with entities := w.entities.modify id f }

theorem entity?_withRecord (w : World) (id id' : EntityId) (f : Entity → Entity) :
    (w.withRecord id f).entity? id' =
      if id' = id then (w.entity? id').map f else w.entity? id' := by
  simp only [entity?, withRecord, OrderedMap.get?_modify, Std.LawfulEqOrd.compare_eq_iff_eq]
  cases w.store.validate id' with
  | ok u => rfl
  | error e => exact (ite_self none).symm

theorem withRecord_withRecord (w : World) (id : EntityId) (f g : Entity → Entity) :
    (w.withRecord id f).withRecord id g = w.withRecord id (g ∘ f) := by
  simp only [withRecord, OrderedMap.modify_modify]

theorem entity?_eq_some_iff {e : Entity} :
    w.entity? id = some e ↔ w.store.validate id = .ok () ∧ w.entities.get? id = some e := by
  unfold entity?
  cases w.store.validate id with
  | ok u => exact ⟨fun h => ⟨rfl, h⟩, fun h => h.2⟩
  | error e' => exact ⟨nofun, nofun⟩

theorem edit_of_entity? {e : Entity} (h : w.entity? id = some e) (f : Entity → Entity) :
    w.edit id f = .ok (w.withRecord id f) := by
  obtain ⟨hv, hget⟩ := entity?_eq_some_iff.1 h
  have hc : w.entities.contains id := by rw [OrderedMap.contains, hget]; rfl
  unfold edit
  rw [hv]
  exact if_pos hc

theorem edit_of_unknown (h : w.entity? id = none) (f : Entity → Entity) :
    ∃ e, w.edit id f = .error e := by
  unfold edit
  cases hv : w.store.validate id with
  | error e => exact ⟨e, rfl⟩
  | ok u =>
    have hc : ¬ w.entities.contains id := fun hc => by
      obtain ⟨e, he⟩ := Option.isSome_iff_exists.1 hc
      exact absurd (h.symm.trans (entity?_eq_some_iff.2 ⟨hv, he⟩)) nofun
    exact ⟨_, if_neg hc⟩

theorem addTag_of_entity? {e : Entity} (h : w.entity? id = some e) (tag : String) :
    Host.addTag id tag w = .ok () (w.withRecord id (·.withTag tag)) := by
  simp only [Host.addTag, effect, addTag, edit_of_entity? h]
  rfl

theorem addTag_of_unknown (h : w.entity? id = none) (tag : String) :
    ∃ e, Host.addTag id tag w = .error e w := by
  obtain ⟨e, he⟩ := edit_of_unknown h fun e => { e with tags := e.tags.add tag }
  simp only [Host.addTag, effect, addTag, he]
  exact ⟨e, rfl⟩

theorem removeTag_of_entity? {e : Entity} (h : w.entity? id = some e) (tag : String) :
    Host.removeTag id tag w = .ok () (w.withRecord id (·.withoutTag tag)) := by
  simp only [Host.removeTag, effect, removeTag, edit_of_entity? h]
  rfl

/-! ## The log -/

/-- The world that accepted a command. -/
def logged (w : World) (source : CommandSource) (command : String) : World :=
  { w with log := w.log ++ [⟨source, Text.trimmed command⟩] }

theorem host_submit_cases (w : World) (source : CommandSource) (command : String) :
    Host.submit source command w = .ok 1 (w.logged source command) ∨
      ∃ e, Host.submit source command w = .error e w := by
  simp only [Host.submit]
  cases h : w.submit source command with
  | ok r =>
    obtain ⟨n, w'⟩ := r
    obtain ⟨rfl, rfl⟩ := submit_ok h
    exact .inl rfl
  | error e => exact .inr ⟨e, rfl⟩

/-! ## Markers -/

/-- The entity, if there is one, has lost a tag. -/
def stripped (w : World) (id : EntityId) (tag : String) : World :=
  if (w.entity? id).isSome then w.withRecord id (·.withoutTag tag) else w

theorem stripped_of_entity? {e : Entity} (h : w.entity? id = some e) (tag : String) :
    w.stripped id tag = w.withRecord id (·.withoutTag tag) := by
  simp only [stripped, h, Option.isSome_some, if_true]

theorem stripped_of_unknown (h : w.entity? id = none) (tag : String) : w.stripped id tag = w := by
  simp only [stripped, h, Option.isSome_none, Bool.false_eq_true, if_false]

theorem entity?_stripped (w : World) (id id' : EntityId) (tag : String) :
    (w.stripped id tag).entity? id' =
      if id' = id then (w.entity? id').map (·.withoutTag tag) else w.entity? id' := by
  cases h : w.entity? id with
  | some e => rw [stripped_of_entity? h, entity?_withRecord]
  | none =>
    rw [stripped_of_unknown h]
    split
    · next hid => rw [hid, h]; rfl
    · rfl

/-- Nothing is lost exactly if the entity does not carry the tag. -/
theorem stripped_eq_self_iff {tag : String} :
    w.stripped id tag = w ↔ ∀ e, w.entity? id = some e → e.tags.has tag = false := by
  constructor
  · intro h e he
    have hid := entity?_stripped w id id tag
    rw [h, if_pos rfl, he, Option.map_some, Option.some_inj] at hid
    exact Entity.withoutTag_eq_self_iff.1 hid.symm
  · intro h
    cases he : w.entity? id with
    | none => exact stripped_of_unknown he tag
    | some e =>
      have hself : w.entities.modify id (·.withoutTag tag) = w.entities := by
        refine OrderedMap.modify_eq_self fun v hv => ?_
        obtain rfl : e = v := Option.some.inj ((entity?_eq_some_iff.1 he).2.symm.trans hv)
        exact Entity.withoutTag_eq_self_iff.2 (h e he)
      rw [stripped_of_entity? he, withRecord, hself]

/-- A submission with a marker leaves the world without it, and with the command logged
if it was accepted. -/
theorem submitMarked_cases (w : World) (id : EntityId) (marker : String) (source : CommandSource)
    (command : String) :
    Renderer.submitMarked id marker source command w =
        .ok 1 ((w.stripped id marker).logged source command) ∨
      ∃ e, Renderer.submitMarked id marker source command w = .error e (w.stripped id marker) := by
  cases h : w.entity? id with
  | none =>
    obtain ⟨e, he⟩ := addTag_of_unknown h marker
    rw [stripped_of_unknown h]
    exact .inr ⟨e, Renderer.submitMarked_of_error he⟩
  | some e =>
    let marked := w.withRecord id (·.withTag marker)
    have hmarked : marked.entity? id = some (e.withTag marker) := by
      rw [entity?_withRecord, if_pos rfl, h, Option.map_some]
    have hstripped : marked.withRecord id (·.withoutTag marker) = w.stripped id marker := by
      rw [stripped_of_entity? h, withRecord_withRecord]
      exact congrArg (w.withRecord id) (funext (Entity.withoutTag_withTag marker))
    rw [Renderer.submitMarked_of_ok (addTag_of_entity? h marker)]
    rcases host_submit_cases marked source command with hs | ⟨e', hs⟩
    · have hr : Host.removeTag id marker (marked.logged source command) =
          .ok () ((marked.withRecord id (·.withoutTag marker)).logged source command) :=
        removeTag_of_entity? (w := marked.logged source command) hmarked marker
      exact .inl (Effect.ensuring_of_ok hs (hstripped ▸ hr))
    · have hr := removeTag_of_entity? hmarked marker
      exact .inr ⟨e', Effect.ensuring_of_error hs (hstripped ▸ hr)⟩

theorem rest_stripped (w : World) (id : EntityId) (tag : String) :
    w.stripped id tag = { w with entities := (w.stripped id tag).entities } := by
  cases h : w.entity? id with
  | none => rw [stripped_of_unknown h]
  | some e => rw [stripped_of_entity? h]; rfl

/-- Whoever the context is bound to has lost a tag. -/
def unmarked (w : World) (c : Context) (marker : String) : World :=
  match c.position with
  | .fixed _ => w
  | .bound id => w.stripped id marker

/-- The world that a submission leaves, whether or not the command was accepted. -/
theorem submit_cases (w : World) (r : Renderer) (c : Context) (command : String) :
    let w' := w.unmarked c (Renderer.marker r.markerStem r.nextMarker)
    Renderer.submit c command (w, r) =
        .ok 1 (w'.logged (c.executor.elim (.dimension c.dimension) .entity)
          (r.submitted w c command), r.after c) ∨
      ∃ e, Renderer.submit c command (w, r) = .error e (w', r.after c) := by
  intro w'
  rw [← Renderer.source_eq]
  cases hc : c.position with
  | fixed point =>
    have hw : w' = w := by simp only [w', unmarked, hc]
    rw [hw, Renderer.submit_fixed hc, Renderer.submitted, Renderer.after, hc]
    rcases host_submit_cases w (Renderer.source c) (r.renderAt c point command) with h | ⟨e, h⟩
    · exact .inl (by rw [h]; rfl)
    · exact .inr ⟨e, by rw [h]; rfl⟩
  | bound id =>
    have hw : w' = w.stripped id (Renderer.marker r.markerStem r.nextMarker) := by
      simp only [w', unmarked, hc]
    rw [hw, Renderer.submit_bound hc, Renderer.submitted, Renderer.after, hc]
    rcases submitMarked_cases w id (Renderer.marker r.markerStem r.nextMarker)
      (Renderer.source c) (r.renderNext w c id command) with h | ⟨e, h⟩
    · exact .inl (by rw [h]; rfl)
    · exact .inr ⟨e, by rw [h]; rfl⟩

theorem rest_unmarked (w : World) (c : Context) (marker : String) :
    w.unmarked c marker = { w with entities := (w.unmarked c marker).entities } := by
  unfold unmarked
  cases c.position with
  | fixed point => rfl
  | bound id => exact rest_stripped w id marker

theorem log_unmarked (w : World) (c : Context) (marker : String) :
    (w.unmarked c marker).log = w.log := by
  rw [rest_unmarked]

theorem unmarked_eq_self_iff {c : Context} {marker : String} :
    w.unmarked c marker = w ↔
      ∀ id e, c.position = .bound id → w.entity? id = some e → e.tags.has marker = false := by
  cases hc : c.position with
  | fixed point => simp only [unmarked, hc, reduceCtorEq, false_imp_iff, implies_true]
  | bound id =>
    simp only [unmarked, hc, stripped_eq_self_iff, Position.bound.injEq]
    exact ⟨fun h id' e hid => hid ▸ h e, fun h e => h id e rfl⟩

/-- How a submission from a context leaves a world. -/
structure Frame (w : World) (r : Renderer) (c : Context) (command : String)
    (result : EStateM.Result Error (World × Renderer) Nat) : Prop where
  /-- Only records and the log can differ. -/
  rest : (stateLeft result).1 =
    { w with entities := (stateLeft result).1.entities, log := (stateLeft result).1.log }
  /-- One command more, from the executor or else from the context's dimension. -/
  log_of_ok : ∀ n state, result = .ok n state → state.1.log =
    w.log ++ [⟨c.executor.elim (.dimension c.dimension) .entity,
      Text.trimmed (r.submitted w c command)⟩]
  log_of_error : ∀ e state, result = .error e state → state.1.log = w.log
  elsewhere : ∀ id, c.position ≠ .bound id →
    (stateLeft result).1.entity? id = w.entity? id
  /-- The entity that the context is bound to does not carry the marker. -/
  bound : ∀ id, c.position = .bound id → (stateLeft result).1.entity? id =
    (w.entity? id).map (·.withoutTag (Renderer.marker r.markerStem r.nextMarker))
  /-- All records are as before, unless that entity carried the marker before. -/
  entities_iff : (stateLeft result).1.entities = w.entities ↔
    ∀ id e, c.position = .bound id → w.entity? id = some e →
      e.tags.has (Renderer.marker r.markerStem r.nextMarker) = false

theorem entity?_unmarked_of_bound {c : Context} (hc : c.position = .bound id) (w : World)
    (marker : String) :
    (w.unmarked c marker).entity? id = (w.entity? id).map (·.withoutTag marker) := by
  simp only [unmarked, hc, entity?_stripped, if_true]

theorem entity?_unmarked_of_ne {c : Context} (hc : c.position ≠ .bound id) (w : World)
    (marker : String) : (w.unmarked c marker).entity? id = w.entity? id := by
  unfold unmarked
  cases hp : c.position with
  | fixed point => rfl
  | bound id' =>
    have hne : id ≠ id' := fun h => hc (h ▸ hp)
    exact (entity?_stripped w id' id marker).trans (if_neg hne)

theorem entities_unmarked_iff {c : Context} {marker : String} :
    (w.unmarked c marker).entities = w.entities ↔
      ∀ id e, c.position = .bound id → w.entity? id = some e → e.tags.has marker = false := by
  rw [← unmarked_eq_self_iff]
  constructor
  · intro h
    rw [rest_unmarked, h]
  · exact congrArg entities

theorem frame_of_unmarked {r : Renderer} {c : Context} {command : String}
    {result : EStateM.Result Error (World × Renderer) Nat} {log : List Submission}
    (hleft : (stateLeft result).1 =
      { w.unmarked c (Renderer.marker r.markerStem r.nextMarker) with log })
    (hok : ∀ n state, result = .ok n state → state.1.log =
      w.log ++ [⟨c.executor.elim (.dimension c.dimension) .entity,
        Text.trimmed (r.submitted w c command)⟩])
    (herror : ∀ e state, result = .error e state → state.1.log = w.log) :
    Frame w r c command result where
  rest := by rw [hleft, rest_unmarked]
  log_of_ok := hok
  log_of_error := herror
  elsewhere id hc := by
    rw [hleft]
    exact entity?_unmarked_of_ne hc w _
  bound id hc := by
    rw [hleft]
    exact entity?_unmarked_of_bound hc w _
  entities_iff := by
    rw [hleft]
    exact entities_unmarked_iff

/-- A submission that fails logs nothing. -/
theorem log_of_submit_error {r : Renderer} {c : Context} {command : String} {e : Error}
    {state : World × Renderer} (h : Renderer.submit c command (w, r) = .error e state) :
    state.1.log = w.log := by
  rcases submit_cases w r c command with hok | ⟨e', herror⟩
  · cases h.symm.trans hok
  · cases h.symm.trans herror
    exact log_unmarked w c _

/-- A submission changes the log, if the command is accepted, and nothing else but that
the entity of a bound context has lost the marker. -/
theorem submit_frame (w : World) (r : Renderer) (c : Context) (command : String) :
    Frame w r c command (Renderer.submit c command (w, r)) := by
  have herror (e : Error) (state : World × Renderer)
      (h : Renderer.submit c command (w, r) = .error e state) := log_of_submit_error h
  rcases submit_cases w r c command with h | ⟨e, h⟩
  · rw [h]
    refine frame_of_unmarked rfl ?_ (fun _ _ => nofun)
    rintro n state ⟨⟩
    exact congrArg (· ++ _) (log_unmarked w c _)
  · rw [h] at herror ⊢
    exact frame_of_unmarked rfl (fun _ _ => nofun) herror

/-- A cow that carries the first marker of a renderer loses it when a command is submitted
from where it stands. -/
theorem submit_removes_carried_tag :
    let tag := "voxecute_marker_0"
    let cow := World.new.spawn { Entity.ofType "cow" with tags := .ofList [tag] }
    let c : Context := ⟨⟨0, .entity cow.1⟩, some cow.1, .overworld, .bound cow.1, .zero, .feet⟩
    let result := Renderer.submit c "say moo" (cow.2, .ofSettings .standard)
    (cow.2.entity? cow.1).map (·.tags.has tag) = some true ∧
      ((stateLeft result).1.entity? cow.1).map (·.tags.has tag) = some false := by
  intro tag cow c result
  have hbefore : (cow.2.entity? cow.1).map (·.tags.has tag) = some true := by decide +kernel
  have hmarker : Renderer.marker Settings.standard.markerStem 0 = tag := by decide +kernel
  refine ⟨hbefore, ?_⟩
  have hafter : (stateLeft result).1.entity? cow.1 =
      (cow.2.entity? cow.1).map (·.withoutTag tag) := by
    rw [← hmarker, ← entity?_unmarked_of_bound (rfl : c.position = .bound cow.1)]
    rcases submit_cases cow.2 (.ofSettings .standard) c "say moo" with h | ⟨e, h⟩
    · exact congrArg (fun result => (stateLeft result).1.entity? cow.1) h
    · exact congrArg (fun result => (stateLeft result).1.entity? cow.1) h
  obtain ⟨e, he, -⟩ := Option.map_eq_some_iff.1 hbefore
  rw [hafter, he]
  exact congrArg some (OrderedSet.has_remove e.tags tag)

end World

end CommandChain
