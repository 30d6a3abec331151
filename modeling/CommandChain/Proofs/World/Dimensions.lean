import CommandChain.Proofs.Selector.Resolution
import CommandChain.Proofs.Selector.RoundTrip
import CommandChain.Proofs.World.History

/-!
# Dimensions of entities

A search without a distance goes through the registered dimensions, so it finds the
entities of those only: `@e` lists the living among them, each once
(`resolve_everyone`). Every call keeps all entities in registered dimensions
(`Housed.next`) but one: an edit moves a record wherever it likes and registers
nothing (`edit_hides_entity`). Without such an edit every living entity is found
(`everyone_found`).
-/

namespace CommandChain

namespace Selector

open SelectorRegistry

/-! ## The selector of all living entities -/

/-- The type of `@e`. -/
def livingType : SelectorType := { SelectorType.plain "e" .nearest with aliveOnly := true }

/-- `@e`. -/
def everyone : Selector := ⟨livingType, ∅⟩

theorem type?_livingType : standard.type? "e" = some livingType := by cbv

theorem parse_everyone : parse .standard "@e" = .ok everyone :=
  parse_bare (List.all_eq_true.1 (by decide)) type?_livingType

variable {w : World} {c : Context} {id : EntityId} {e : Entity}

theorem selects_everyone_iff {centre : Vec3} :
    everyone.Selects w c centre id e ↔ e.dimension ∈ w.dimensions.toList ∧ e.alive := by
  constructor
  · intro h
    exact ⟨h.placed, h.present⟩
  · rintro ⟨hd, ha⟩
    refine ⟨hd, ha, meets_bare _, ?_, nofun, nofun⟩
    rintro (hplayers | ⟨hrandom, -⟩)
    · exact absurd hplayers (by decide : "e" ∉ ["", "a", "p"])
    · exact absurd hrandom (by decide)

/-- `@e` lists the living entities of the registered dimensions, each once. -/
theorem resolve_everyone (hw : w.Consistent) {here : Vec3} (hc : c.point w = .ok here)
    (random : Random) :
    ∃ ids random', everyone.resolve w c random = .ok ids random' ∧ ids.Nodup ∧
      ∀ id, id ∈ ids ↔
        ∃ e, w.entity? id = some e ∧ e.dimension ∈ w.dimensions.toList ∧ e.alive := by
  have hst := standard_of_parse parse_everyone
  obtain ⟨centre, hcentre⟩ := exists_centre hc
  obtain ⟨listed, random', hnodup, hmem, hres⟩ := exists_listed hw hst hcentre random
  have hadmitted : (everyone.admitted w c centre).Nodup :=
    (nodup_candidates_of_aliveOnly rfl).filter _
  refine ⟨listed, random', hres, hnodup hadmitted, fun id => ?_⟩
  simp only [hmem, selects_everyone_iff]

end Selector

namespace World

/-! ## Entities in registered dimensions -/

/-- Every entity is in a registered dimension. -/
def Housed (w : World) : Prop :=
  ∀ id e, w.entities.get? id = some e → e.dimension ∈ w.dimensions.toList

instance (w : World) : Decidable w.Housed := decidable_of_iff _ OrderedMap.forall_get?_iff.symm

/-- An edit leaves the record in its dimension or a registered one. -/
def Operation.Stays : Operation → World → Prop
  | edit id f, w => ∀ e, w.entity? id = some e →
    (f e).dimension = e.dimension ∨ (f e).dimension ∈ w.dimensions.toList
  | _, _ => True

section

variable {w : World}

theorem housed_new : Housed new := nofun

theorem Housed.addDimension (h : w.Housed) (dimension : DimensionId) :
    (w.addDimension dimension).Housed :=
  fun id e he => OrderedSet.mem_toList_add.2 (.inr (h id e he))

theorem Housed.spawn (h : w.Housed) (e : Entity) : (w.spawn e).2.Housed := by
  intro id e' he
  change (w.entities.insert w.store.allocate.1 e).get? id = some e' at he
  refine OrderedSet.mem_toList_add.2 ?_
  rw [OrderedMap.get?_insert] at he
  split at he
  · cases he; exact .inl rfl
  · exact .inr (h id e' he)

theorem Housed.erase (h : w.Housed) (id : EntityId) {id' : EntityId} {e : Entity}
    (he : (w.entities.erase id).get? id' = some e) : e.dimension ∈ w.dimensions.toList := by
  rw [OrderedMap.get?_erase] at he
  split at he
  · cases he
  · exact h id' e he

theorem Housed.modify (h : w.Housed) {id : EntityId} {f : Entity → Entity}
    (hf : ∀ e, w.entities.get? id = some e →
      (f e).dimension = e.dimension ∨ (f e).dimension ∈ w.dimensions.toList) :
    Housed { w with entities := w.entities.modify id f } := by
  intro id' e he
  change (w.entities.modify id f).get? id' = some e at he
  rw [OrderedMap.get?_modify] at he
  split at he
  · next hid =>
    obtain rfl := Std.LawfulEqOrd.eq_of_compare hid
    obtain ⟨e', he', rfl⟩ := Option.map_eq_some_iff.1 he
    rcases hf e' he' with hd | hd
    · rw [hd]; exact h id' e' he'
    · exact hd
  · exact h id' e he

/-- A call leaves every entity in a registered dimension, unless it moves one elsewhere. -/
theorem Housed.next {op : Operation} (h : w.Housed) (hw : w.Consistent) (hop : op.Stays w) :
    (op.next w).Housed := by
  cases hr : op.run w with
  | error e w' => rw [next_of_error hr]; exact h
  | ok answer w' =>
    rw [next_of_ok hr]
    cases op with
    | spawn e => cases hr; exact h.spawn e
    | despawn id => rw [(despawn_ok (change_of_ok hr)).2]; exact fun _ _ => h.erase id
    | edit id f =>
      rw [(edit_ok (change_of_ok hr)).2]
      exact h.modify fun e he => hop e ((hw.entity?_eq id).trans he)
    | addTag | removeTag =>
      rw [(edit_ok (change_of_ok hr)).2]
      exact h.modify fun e _ => .inl rfl
    | submit => rw [logged_of_ok hr]; exact h
    | setBlock dimension => cases hr; exact h.addDimension dimension
    | addDimension dimension => cases hr; exact h.addDimension dimension
    | updateScores | reject => cases hr; exact h

theorem housed_perform {operations : List Operation}
    (h : Throughout (fun op before => op.Stays before.2) operations) :
    (perform operations).2.Housed := by
  induction operations using List.reverseRecOn with
  | nil => exact housed_new
  | append_singleton operations op ih =>
    obtain ⟨hbefore, hop⟩ := throughout_concat.1 h
    rw [perform_concat]
    exact (ih hbefore).next (consistent_perform operations) hop

end

/-! ## Who is found -/

/-- After calls that move no record out of the registered dimensions, every entity is in
one of them, and `@e` lists the living entities, each once. -/
theorem everyone_found (operations : List Operation)
    (hstay : Throughout (fun op before => op.Stays before.2) operations) :
    (∀ id e, (perform operations).2.entity? id = some e →
      e.dimension ∈ (perform operations).2.dimensions.toList) ∧
    ∃ s, Selector.parse .standard "@e" = .ok s ∧
      ∀ (c : Context) (here : Vec3) (random : Random), c.point (perform operations).2 = .ok here →
        ∃ ids random', s.resolve (perform operations).2 c random = .ok ids random' ∧ ids.Nodup ∧
          ∀ id, id ∈ ids ↔ ∃ e, (perform operations).2.entity? id = some e ∧ e.alive := by
  have hw := consistent_perform operations
  have hhoused : ∀ id e, (perform operations).2.entity? id = some e →
      e.dimension ∈ (perform operations).2.dimensions.toList := fun id e he =>
    housed_perform hstay id e ((hw.entity?_eq id).symm.trans he)
  refine ⟨hhoused, _, Selector.parse_everyone, fun c here random hc => ?_⟩
  obtain ⟨ids, random', hres, hnodup, hmem⟩ := Selector.resolve_everyone hw hc random
  refine ⟨ids, random', hres, hnodup, fun id => (hmem id).trans ?_⟩
  exact exists_congr fun e => and_congr_right fun he => and_iff_right (hhoused id e he)

/-- A cow is moved to the nether, and found there. -/
theorem everyone_found_moved :
    let operations : List Operation := [.spawn (.ofType "cow"),
      .edit ⟨0, 1⟩ fun e => { e with dimension := .nether }]
    let w := (perform operations).2
    let c := Context.atPoint ⟨0, .server⟩ .overworld .zero
    Throughout (fun op before => op.Stays before.2) operations ∧ c.point w = .ok .zero ∧
      ∃ s, Selector.parse .standard "@e" = .ok s ∧
        ∃ ids random', s.resolve w c (.ofSeed 1) = .ok ids random' ∧ ⟨0, 1⟩ ∈ ids := by
  intro operations w c
  have hstay : Throughout (fun op before => op.Stays before.2) operations := by
    change Throughout _ ([] ++ [_] ++ [_])
    simp only [throughout_concat]
    exact ⟨⟨throughout_nil, trivial⟩, fun e _ => .inr (show DimensionId.nether ∈ _ by decide)⟩
  obtain ⟨-, s, hs, hfound⟩ := everyone_found operations hstay
  obtain ⟨ids, random', hres, -, hmem⟩ := hfound c .zero (.ofSeed 1) rfl
  exact ⟨hstay, rfl, s, hs, ids, random', hres, (hmem _).2 ⟨_, rfl, rfl⟩⟩

/-- A cow that an edit has moved to a dimension of its own is not found. -/
theorem edit_hides_entity :
    let w := (perform [.spawn (.ofType "cow"),
      .edit ⟨0, 1⟩ fun e => { e with dimension := .named "aether" }]).2
    let c := Context.atPoint ⟨0, .server⟩ .overworld .zero
    ∃ e, w.entity? ⟨0, 1⟩ = some e ∧ e.alive ∧ e.dimension ∉ w.dimensions.toList ∧
      c.point w = .ok .zero ∧
      ∃ s, Selector.parse .standard "@e" = .ok s ∧
        ∃ random', s.resolve w c (.ofSeed 1) = .ok [] random' := by
  intro w c
  have hw : w.Consistent := consistent_perform _
  obtain ⟨ids, random', hres, -, hmem⟩ :=
    Selector.resolve_everyone hw (rfl : c.point w = .ok .zero) (.ofSeed 1)
  have hnone : ids = [] := by
    refine List.eq_nil_iff_forall_not_mem.2 fun id hid => ?_
    obtain ⟨e, he, hd, -⟩ := (hmem id).1 hid
    rw [hw.entity?_eq, ← OrderedMap.mem_entries_iff] at he
    have hall : ∀ r ∈ w.entities.entries, r.2.dimension ∉ w.dimensions.toList := by decide
    exact hall _ he hd
  exact ⟨_, rfl, rfl, by decide, rfl, _, Selector.parse_everyone, random', hnone ▸ hres⟩

end World

end CommandChain
