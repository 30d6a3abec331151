import CommandChain.Proofs.Subcommand.Drawing
import CommandChain.Proofs.World.Dimensions
import CommandChain.Proofs.World.Removed
import CommandChain.Subcommand.Fork

/-!
# Branches at their executors

`as` leaves every branch where its parent is, and `at @s` moves it to its executor. Like
every selector `@s` has to find what it picks: it does if the executor is in a registered
dimension, and alive or a player (`resolve_oneself`). What another selector picks is so, if
exactly the players are of the type of players. So `as` and `at @s` make one branch of each
entity that is picked, and it stands where the entity does (`as_at_oneself`).
-/

namespace CommandChain

/-- Exactly the records with player state are of the type of players. -/
def World.PlayersMatch (w : World) : Prop :=
  ∀ id e, w.entities.get? id = some e → (e.entityType = playerType ↔ e.isPlayer)

instance (w : World) : Decidable w.PlayersMatch :=
  decidable_of_iff _ OrderedMap.forall_get?_iff.symm

theorem World.PlayersMatch.playersTyped {w : World} (h : w.PlayersMatch) : w.PlayersTyped :=
  fun id e he => (h id e he).2

namespace Selector

variable {s : Selector} {w : World} {c : Context} {id : EntityId} {e : Entity} {centre : Vec3}

/-! ## The selector of the executor -/

/-- `@s`. -/
def oneself : Selector := ⟨selfType, ∅⟩

theorem parse_oneself : parse .standard "@s" = .ok oneself :=
  parse_bare (List.all_eq_true.1 (by decide)) type?_selfType

theorem selects_oneself_iff : oneself.Selects w c centre id e ↔ e.dimension ∈ w.dimensions.toList ∧
    ((e.alive ∧ e.entityType ≠ playerType) ∨ e.isPlayer) ∧ c.executor = some id := by
  constructor
  · intro h
    exact ⟨h.placed, h.present, h.executor rfl⟩
  · rintro ⟨hd, hpresent, hexecutor⟩
    refine ⟨hd, hpresent, meets_bare _, ?_, nofun, fun _ => hexecutor⟩
    rintro (hplayers | ⟨hrandom, -⟩)
    · exact absurd hplayers (by decide : "s" ∉ ["", "a", "p"])
    · exact absurd hrandom (by decide)

/-- `@s` picks the executor. -/
theorem resolve_oneself (hw : w.Consistent) (hp : w.PlayersTyped) (he : w.entity? id = some e)
    (hd : e.dimension ∈ w.dimensions.toList)
    (hpresent : (e.alive ∧ e.entityType ≠ playerType) ∨ e.isPlayer)
    (hexecutor : c.executor = some id) {here : Vec3} (hc : c.point w = .ok here)
    (random : Random) : oneself.resolve w c random = .ok [id] random := by
  have hst := standard_of_parse parse_oneself
  obtain ⟨centre, hcentre⟩ : ∃ centre, oneself.centre w c = .ok centre := exists_centre hc
  have honly (id' : EntityId) :
      (∃ e, w.entity? id' = some e ∧ oneself.Selects w c centre id' e) ↔ id' = id := by
    simp only [selects_oneself_iff]
    constructor
    · rintro ⟨e', -, -, -, hexecutor'⟩
      exact Option.some.inj (hexecutor'.symm.trans hexecutor)
    · rintro rfl
      exact ⟨e, he, hd, hpresent, hexecutor⟩
  obtain ⟨random', hres⟩ := resolve_of_only hw hp hst hcentre honly random
  obtain ⟨r, hr⟩ := drawsNothing_resolve (rfl : oneself.type.order = .nearest) w c
  rw [hr] at hres ⊢
  cases r with
  | ok ids => cases hres; rfl
  | error e => cases hres

/-- What any selector picks, `@s` finds. -/
theorem Selects.present_oneself (h : s.Selects w c centre id e)
    (hp : e.entityType = playerType ↔ e.isPlayer) :
    (e.alive ∧ e.entityType ≠ playerType) ∨ e.isPlayer := by
  have hpresent := h.present
  by_cases hname : s.type.name = "e"
  · rw [if_pos hname] at hpresent
    by_cases ht : e.entityType = playerType
    · exact .inr (hp.1 ht)
    · exact .inl ⟨hpresent, ht⟩
  · rwa [if_neg hname] at hpresent

end Selector

/-! ## Two forks -/

namespace Fork

/-- The second fork is applied to the branches of the first, one after the other. -/
def andThen {W : Type} [WorldView W] (first second : Fork) (world : W) (c : Context) :
    Effect Random (List Context) := do
  let branches ← first.apply world c
  let ends ← branches.mapM (second.apply world)
  return ends.flatten

variable {s : Selector} {w : World} {c : Context} {random after : Random}

theorem record_of_entity? {id : EntityId} {e : Entity} (he : w.entity? id = some e) :
    Context.record w id = .ok e := by
  have hview : WorldView.entity? w id = some e := he
  rw [Context.record, hview]

/-- Every branch has its entity as executor. -/
theorem apply_as {ids : List EntityId} (h : s.resolve w c random = .ok ids after)
    (hids : ∀ id ∈ ids, ∃ e, w.entity? id = some e) :
    apply ⟨.as, s⟩ w c random = .ok (ids.map fun id => { c with executor := some id }) after := by
  have hadopt (id : EntityId) (hid : id ∈ ids) :
      adopt .as w c id = .ok { c with executor := some id } := by
    obtain ⟨e, he⟩ := hids id hid
    rw [adopt, record_of_entity? he]
    rfl
  unfold apply
  rw [bind_of_ok h, mapM_of_ok hadopt]
  rfl

/-- The one branch stands where its entity does. -/
theorem apply_at {id : EntityId} {e : Entity} (h : s.resolve w c random = .ok [id] after)
    (he : w.entity? id = some e) :
    apply ⟨.at, s⟩ w c random =
      .ok [{ c with position := .bound id, rotation := e.rotation, dimension := e.dimension }]
        after := by
  unfold apply
  rw [bind_of_ok h, List.mapM_cons, adopt, record_of_entity? he]
  rfl

/-- If exactly the players are of the type of players, and all entities are in registered
dimensions, then `as` and `at @s` make one branch of each entity that the selector picks, in
the order in which it picks them: the entity executes, and the branch is bound to it and has
its rotation and dimension. Only the selector draws from the random source. -/
theorem as_at_oneself (hw : w.Consistent) (hp : w.PlayersMatch) (hd : w.Housed) {text : String}
    (hs : Selector.parse .standard text = .ok s) {here : Vec3} (hc : c.point w = .ok here) :
    ∃ self, Selector.parse .standard "@s" = .ok self ∧
      ∀ random, ∃ ids after branches, s.resolve w c random = .ok ids after ∧
        andThen ⟨.as, s⟩ ⟨.at, self⟩ w c random = .ok branches after ∧
        List.Forall₂ (fun id branch => ∃ e, w.entity? id = some e ∧ branch =
          { c with executor := some id, position := .bound id, rotation := e.rotation,
                   dimension := e.dimension }) ids branches := by
  refine ⟨_, Selector.parse_oneself, fun random => ?_⟩
  obtain ⟨centre, hcentre⟩ := Selector.exists_centre hc
  obtain ⟨all, after, -, hall, hids⟩ :=
    Selector.exists_listing hw hp.playersTyped (Selector.standard_of_parse hs) hcentre random
  have hsel : ∀ id ∈ s.limited all, ∃ e, w.entity? id = some e ∧ s.Selects w c centre id e :=
    fun id hid => (hall id).1 (s.limited_subset all hid)
  have hself : ∀ id ∈ s.limited all, ∃ branch,
      apply ⟨.at, .oneself⟩ w { c with executor := some id } after = .ok [branch] after ∧
      ∃ e, w.entity? id = some e ∧ branch =
        { c with executor := some id, position := .bound id, rotation := e.rotation,
                 dimension := e.dimension } := by
    intro id hid
    obtain ⟨e, he, hselects⟩ := hsel id hid
    have hget : w.entities.get? id = some e := (hw.entity?_eq id).symm.trans he
    have hpresent := hselects.present_oneself (hp id e hget)
    -- who executes makes no difference to where the branch is
    have hpoint : Context.point { c with executor := some id } w = .ok here := hc
    have hres := Selector.resolve_oneself hw hp.playersTyped he (hd id e hget) hpresent rfl
      hpoint after
    exact ⟨_, apply_at hres he, e, he, rfl⟩
  have hexecutors := apply_as hids fun id hid => (hsel id hid).imp fun _ h => h.1
  obtain ⟨ends, hends, hbranches⟩ := exists_mapM_of_singleton hself
  refine ⟨s.limited all, after, ends.flatten, hids, ?_, hbranches⟩
  unfold andThen
  rw [bind_of_ok hexecutors, List.mapM_map]
  exact bind_of_ok hends

/-- A dead player and a cow in the nether, in random order. -/
theorem as_at_oneself_mixed :
    let w := (World.perform [.spawn { Entity.ofPlayer "Alex" with alive := false },
      .spawn { Entity.ofType "cow" with dimension := .nether, location := ⟨3, 0, 0⟩ },
      .spawn (.ofType "pig")]).2
    let c := Context.atPoint ⟨0, .server⟩ .overworld .zero
    ∃ s self, Selector.parse .standard "@r[type=!pig,c=2]" = .ok s ∧
      Selector.parse .standard "@s" = .ok self ∧ ∃ ids after branches,
        s.resolve w c (.ofSeed 0) = .ok ids after ∧ ids = [⟨1, 1⟩, ⟨0, 1⟩] ∧
        andThen ⟨.as, s⟩ ⟨.at, self⟩ w c (.ofSeed 0) = .ok branches after ∧
        List.Forall₂ (fun id branch => ∃ e, w.entity? id = some e ∧ branch =
          { c with executor := some id, position := .bound id, rotation := e.rotation,
                   dimension := e.dimension }) ids branches := by
  intro w c
  have hw : w.Consistent := World.consistent_perform _
  have hp : w.PlayersMatch := by decide +kernel
  have hd : w.Housed := by decide +kernel
  have hall : (Selector.parse .standard "@r[type=!pig,c=2]").toOption.any fun s =>
      value? (s.resolve w c (.ofSeed 0)) = some [⟨1, 1⟩, ⟨0, 1⟩] := by
    decide +kernel
  obtain ⟨s, hs, hpicks⟩ := exists_ok_of_any hall
  have hpicks := of_decide_eq_true hpicks
  have hc : c.point w = .ok .zero := rfl
  obtain ⟨self, hself, hforks⟩ := as_at_oneself hw hp hd hs hc
  obtain ⟨ids, after, branches, hids, hbranches, hall⟩ := hforks (.ofSeed 0)
  rw [hids] at hpicks
  exact ⟨s, self, hs, hself, ids, after, branches, hids, Option.some.inj hpicks, hbranches, hall⟩

end Fork

end CommandChain
