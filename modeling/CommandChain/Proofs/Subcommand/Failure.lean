import CommandChain.Proofs.Effect
import CommandChain.Proofs.Selector.Resolution
import CommandChain.Proofs.Subcommand.Drawing

/-!
# Errors of subcommands

A subcommand is meant to fail for four reasons (`Subcommand.FailsBy`): its context is
bound to an entity that is gone, a position mixes local with other components, a
rotation has local ones, or a dimension is not registered. Only two other errors are
conceivable, a game mode that does not exist and an entity that a fork picks but does
not find (`Subcommand.fails_apply`). None of them has a place yet: it is left to
`applyAt` to name the subcommand, so numbering a subcommand differently changes its errors
in that number only (`applyAt_add`).

Notation and dimension are always looked at: a subcommand that is applied is feasible
(`Subcommand.feasible_of_apply`).
-/

namespace CommandChain

/-! ## Notation -/

namespace PositionExpr

/-- One or two of the components are local. -/
def Mixed (p : PositionExpr) : Prop :=
  0 < p.coords.countP Coord.isLocal ∧ p.coords.countP Coord.isLocal < 3

def mixedFault (p : PositionExpr) : Fault :=
  .invalidNotation ("cannot mix local and world coordinates in `" ++ toString p ++ "`")

variable {p : PositionExpr}

theorem mixed_iff : p.Mixed ↔ ¬ p.coords.all (!·.isLocal) ∧ ¬ p.isLocal := by
  have hsome : 0 < p.coords.countP Coord.isLocal ↔ ¬ p.coords.all (!·.isLocal) := by
    simp [List.countP_pos_iff]
  have hnotall : p.coords.countP Coord.isLocal < 3 ↔ ¬ p.isLocal := by
    rw [isLocal, List.all_eq_true, ← List.countP_eq_length]
    exact (List.countP_le_length : _ ≤ p.coords.length).lt_iff_ne
  exact and_congr hsome hnotall

theorem resolve_of_mixed (h : p.Mixed) (origin : Vec3) (rotation : Rotation) :
    p.resolve origin rotation = .error p.mixedFault := by
  obtain ⟨hsome, hnotall⟩ := mixed_iff.1 h
  rw [resolve, if_neg hsome, if_neg hnotall, mixedFault]

theorem exists_resolve (h : ¬ p.Mixed) (origin : Vec3) (rotation : Rotation) :
    ∃ point, p.resolve origin rotation = .ok point := by
  unfold resolve
  split
  · exact ⟨_, rfl⟩
  · next hsome => exact ⟨_, if_pos (not_not.1 fun hall => h (mixed_iff.2 ⟨hsome, hall⟩))⟩

theorem not_mixed_of_resolve {origin point : Vec3} {rotation : Rotation}
    (h : p.resolve origin rotation = .ok point) : ¬ p.Mixed := fun hp => by
  rw [resolve_of_mixed hp] at h
  cases h

end PositionExpr

namespace RotationExpr

/-- Some component is local. -/
def HasLocal (r : RotationExpr) : Prop := ∃ coord ∈ r.coords, coord.isLocal

def localFault (r : RotationExpr) : Fault :=
  .invalidNotation ("rotations cannot use local coordinates: `" ++ toString r ++ "`")

variable {r : RotationExpr}

theorem resolve_of_hasLocal (h : r.HasLocal) (current : Rotation) :
    r.resolve current = .error r.localFault :=
  if_pos (List.any_eq_true.2 h)

theorem exists_resolve (h : ¬ r.HasLocal) (current : Rotation) :
    ∃ rotation, r.resolve current = .ok rotation :=
  ⟨_, if_neg fun hlocal => h (List.any_eq_true.1 hlocal)⟩

theorem not_hasLocal_of_resolve {current rotation : Rotation}
    (h : r.resolve current = .ok rotation) : ¬ r.HasLocal := fun hr => by
  rw [resolve_of_hasLocal hr] at h
  cases h

end RotationExpr

/-! ## What a subcommand reads -/

def Redirect.positions : Redirect → List PositionExpr
  | positioned p => [p]
  | facing p => [p]
  | _ => []

def Condition.positions : Condition → List PositionExpr
  | block p _ => [p]
  | _ => []

namespace Subcommand

/-- The positions that a subcommand reads. -/
def positions : Subcommand → List PositionExpr
  | redirect r => r.positions
  | fork _ => []
  | guard g => g.condition.positions

/-- The rotations that a subcommand reads. -/
def rotations : Subcommand → List RotationExpr
  | redirect (.rotated r) => [r]
  | _ => []

/-- The dimension that a subcommand goes to. -/
def destination? : Subcommand → Option DimensionId
  | redirect (.inDimension dimension) => some dimension
  | _ => none

variable {W : Type} [WorldView W]

/-- The errors that a subcommand is meant to have. -/
inductive FailsBy (s : Subcommand) (world : W) (c : Context) : Error → Prop where
  | unbound {id : EntityId} : c.position = .bound id → WorldView.entity? world id = none →
    FailsBy s world c (Fault.entityNotFound id)
  | mixed {p : PositionExpr} : p ∈ s.positions → p.Mixed → FailsBy s world c p.mixedFault
  | localRotation {r : RotationExpr} : r ∈ s.rotations → r.HasLocal →
    FailsBy s world c r.localFault
  | unknownDimension {dimension : DimensionId} : s.destination? = some dimension →
    dimension ∉ WorldView.dimensions world →
    FailsBy s world c (Fault.unknownDimension dimension.id)

/-- The notation is sound, and the dimension gone to is registered. -/
structure Feasible (s : Subcommand) (world : W) : Prop where
  unmixed : ∀ p ∈ s.positions, ¬ p.Mixed
  noLocal : ∀ r ∈ s.rotations, ¬ r.HasLocal
  registered : ∀ dimension, s.destination? = some dimension →
    dimension ∈ WorldView.dimensions world

/-- All errors of a subcommand, in any world and with any selectors. -/
inductive Fails (s : Subcommand) (world : W) (c : Context) : Error → Prop where
  | meant {e : Error} : s.FailsBy world c e → Fails s world c e
  | noMode {selector : Selector} {text : String} : selector ∈ s.selectors →
    ¬ selector.NamesModes → Fails s world c (Fault.selector (.shapeMismatch "m" text))
  | lost {f : Fork} {id : EntityId} {ids : List EntityId} {random random' : Random} :
    s = .fork f → f.selector.resolve world c random = .ok ids random' → id ∈ ids →
    WorldView.entity? world id = none → Fails s world c (Fault.entityNotFound id)

theorem Fails.place {s : Subcommand} {world : W} {c : Context} {e : Error}
    (h : s.Fails world c e) : e.place = none := by
  cases h with
  | meant h => cases h <;> rfl
  | noMode | lost => rfl

end Subcommand

section

variable {W : Type} [WorldView W] {world : W} {c : Context} {P : Error → Prop}

/-! ## Contexts and coordinates -/

theorem raises_record {id : EntityId}
    (h : WorldView.entity? world id = none → P (Fault.entityNotFound id)) :
    Raises P (Context.record world id) := by
  unfold Context.record
  cases hid : WorldView.entity? world id with
  | none => exact raises_error (h hid)
  | some e => exact raises_ok e

theorem raises_point (h : ∀ id, c.position = .bound id → WorldView.entity? world id = none →
    P (Fault.entityNotFound id)) : Raises P (c.point world) := by
  unfold Context.point
  cases hc : c.position with
  | fixed point => exact raises_ok point
  | bound id => exact (raises_record (h id hc)).bind fun _ => raises_ok _

theorem raises_position {p : PositionExpr} (h : p.Mixed → P p.mixedFault)
    (origin : Vec3) (rotation : Rotation) : Raises P (p.resolve origin rotation) := by
  by_cases hp : p.Mixed
  · rw [PositionExpr.resolve_of_mixed hp]
    exact raises_error (h hp)
  · obtain ⟨point, hr⟩ := PositionExpr.exists_resolve hp origin rotation
    rw [hr]
    exact raises_ok point

theorem raises_rotation {r : RotationExpr} (h : r.HasLocal → P r.localFault) (current : Rotation) :
    Raises P (r.resolve current) := by
  by_cases hr : r.HasLocal
  · rw [RotationExpr.resolve_of_hasLocal hr]
    exact raises_error (h hr)
  · obtain ⟨rotation, he⟩ := RotationExpr.exists_resolve hr current
    rw [he]
    exact raises_ok rotation

/-! ## Selectors -/

section

variable {s : Selector}
  (hmode : ∀ text, ¬ s.NamesModes → P (Fault.selector (.shapeMismatch "m" text)))

include hmode

theorem raises_query (centre : Vec3) : Raises P (s.query centre) := by
  by_cases hm : s.NamesModes
  · rw [Selector.query_eq_spelled hm]
    exact raises_ok _
  · have hvalue (value : ArgValue) : Raises P (Selector.gameMode value) := by
      unfold Selector.gameMode
      split
      · exact raises_ok _
      · exact raises_error (hmode _ hm)
    have hpositive : Raises P ((s.positive? "m").mapM Selector.gameMode) := by
      cases s.positive? "m" with
      | none => exact raises_ok none
      | some value => exact (hvalue value).bind fun mode => raises_ok (some mode)
    exact hpositive.bind fun _ =>
      (raises_mapM fun value _ => hvalue value).bind fun _ => raises_ok _

theorem raises_resolve (hpoint : Raises P (c.point world)) : (s.resolve world c).Raises P := by
  have hcentre : Raises P (s.centre world c) := by
    refine hpoint.bind fun here => raises_position (fun hmixed => ?_) here c.rotation
    -- no argument gives a local component
    have hnone := hmixed.1
    simp [PositionExpr.coords, Selector.isLocal_coordinate] at hnone
  have hordered (centre : Vec3) (ids : List EntityId) : (s.ordered world centre ids).Raises P := by
    intro random e t h
    obtain ⟨listed, random', -, hord⟩ := Selector.exists_ordered s world centre ids random
    rw [hord] at h
    cases h
  exact (Effect.raises_ofExcept hcentre).bind fun centre _ =>
    (Effect.raises_ofExcept (raises_query hmode centre)).bind fun _ _ =>
      (hordered centre _).bind fun _ _ => Effect.raises_pure _

end

/-! ## Subcommands -/

theorem raises_redirect (r : Redirect) (hpoint : Raises P (c.point world))
    (h : ∀ e, (Subcommand.redirect r).FailsBy world c e → P e) : Raises P (r.apply world c) := by
  cases r with
  | positioned p =>
    exact hpoint.bind fun _ =>
      (raises_position (fun hp => h _ (.mixed List.mem_cons_self hp)) _ _).bind fun _ => raises_ok _
  | rotated rotation =>
    exact (raises_rotation (fun hr => h _ (.localRotation List.mem_cons_self hr)) _).bind fun _ =>
      raises_ok _
  | inDimension dimension =>
    by_cases hd : (WorldView.dimensions world).contains dimension
    · simp only [Redirect.apply, if_pos hd]
      exact hpoint.bind fun _ => raises_ok _
    · simp only [Redirect.apply, if_neg hd]
      exact raises_error (h _ (.unknownDimension rfl (by simpa using hd)))
  | anchored anchor => exact raises_ok _
  | align axes => exact hpoint.bind fun _ => raises_ok _
  | facing p =>
    exact hpoint.bind fun _ =>
      (raises_position (fun hp => h _ (.mixed List.mem_cons_self hp)) _ _).bind fun _ => raises_ok _

theorem raises_adopt {kind : ForkKind} {id : EntityId} (hpoint : Raises P (c.point world))
    (hid : WorldView.entity? world id = none → P (Fault.entityNotFound id)) :
    Raises P (Fork.adopt kind world c id) := by
  refine (raises_record hid).bind fun e => ?_
  cases kind with
  | facingEntity anchor => exact hpoint.bind fun _ => raises_ok _
  | _ => exact raises_ok _

theorem raises_score {a : ScoreAccess} (hpoint : Raises P (c.point world))
    (hmode : ∀ s ∈ a.holder.selectors, ∀ text, ¬ s.NamesModes →
      P (Fault.selector (.shapeMismatch "m" text))) : (a.value world c).Raises P := by
  have hholder : (a.holder.resolve world c).Raises P := by
    cases hh : a.holder with
    | selector s =>
      rw [hh] at hmode
      exact (raises_resolve (hmode s List.mem_cons_self) hpoint).bind fun _ _ =>
        Effect.raises_pure _
    | name n => exact Effect.raises_pure _
  exact hholder.bind fun _ _ => Effect.raises_pure _

theorem raises_condition {condition : Condition} (hpoint : Raises P (c.point world))
    (hmode : ∀ s ∈ condition.selectors, ∀ text, ¬ s.NamesModes →
      P (Fault.selector (.shapeMismatch "m" text)))
    (hmixed : ∀ p ∈ condition.positions, p.Mixed → P p.mixedFault) :
    (condition.holds world c).Raises P := by
  cases condition with
  | entity s =>
    exact (raises_resolve (hmode s List.mem_cons_self) hpoint).bind fun _ _ => Effect.raises_pure _
  | block position predicate =>
    have hblock : Raises P (Condition.blockAt position world c) :=
      hpoint.bind fun _ =>
        (raises_position (hmixed position List.mem_cons_self) _ _).bind fun _ => raises_ok _
    exact (Effect.raises_ofExcept hblock).bind fun _ _ => Effect.raises_pure _
  | score left relation right =>
    obtain ⟨hleft, hright⟩ := List.forall_mem_append.1 hmode
    exact (raises_score hpoint hleft).bind fun _ _ =>
      (raises_score hpoint hright).bind fun _ _ => Effect.raises_pure _
  | scoreMatches access range =>
    exact (raises_score hpoint hmode).bind fun _ _ => Effect.raises_pure _

theorem Subcommand.fails_apply (s : Subcommand) (world : W) (c : Context) :
    (s.apply world c).Raises (s.Fails world c) := by
  have hpoint : Raises (s.Fails world c) (c.point world) :=
    raises_point fun id hc hid => .meant (.unbound hc hid)
  cases s with
  | redirect r =>
    exact Effect.raises_ofExcept
      ((raises_redirect r hpoint fun e he => .meant he).bind fun _ => raises_ok _)
  | fork f =>
    refine (raises_resolve (fun text => .noMode List.mem_cons_self) hpoint).bind fun ids hids => ?_
    obtain ⟨random, random', hids⟩ := hids
    exact Effect.raises_ofExcept
      (raises_mapM fun id hid => raises_adopt hpoint fun hnone => .lost rfl hids hid hnone)
  | guard g =>
    have hcondition := raises_condition hpoint (fun s hs text => .noMode hs)
      fun p hp hmixed => .meant (.mixed hp hmixed)
    have hpasses : (g.passes world c).Raises ((Subcommand.guard g).Fails world c) :=
      hcondition.bind fun _ _ => Effect.raises_pure _
    exact hpasses.bind fun _ _ => Effect.raises_pure _

theorem not_mixed_of_bind {α : Type} {p : PositionExpr} {origin : Except Error Vec3}
    {f : Vec3 → Vec3 → Except Error α} {a : α}
    (h : (do let here ← origin; let point ← p.resolve here c.rotation; f here point) = .ok a) :
    ¬ p.Mixed := by
  obtain ⟨_, -, h⟩ := exists_of_bind_ok h
  obtain ⟨_, hp, -⟩ := exists_of_bind_ok h
  exact PositionExpr.not_mixed_of_resolve hp

/-- A subcommand that is applied has sound notation, and goes to a registered dimension. -/
theorem Subcommand.feasible_of_apply {s : Subcommand} {random random' : Random}
    {children : List Context} (h : s.apply world c random = .ok children random') :
    s.Feasible world := by
  cases s with
  | redirect r =>
    obtain ⟨c', hr, -⟩ := exists_of_bind_ok (Effect.ofExcept_ok h)
    cases r with
    | positioned p | facing p =>
      exact ⟨List.forall_mem_singleton.2 (not_mixed_of_bind hr), nofun, nofun⟩
    | rotated rotation =>
      obtain ⟨_, hrotation, -⟩ := exists_of_bind_ok hr
      have hlocal := RotationExpr.not_hasLocal_of_resolve hrotation
      exact ⟨nofun, List.forall_mem_singleton.2 hlocal, nofun⟩
    | inDimension dimension =>
      refine ⟨nofun, nofun, fun dimension' hd => ?_⟩
      cases hd
      by_contra hunknown
      rw [Redirect.apply, if_neg (by simpa using hunknown)] at hr
      cases hr
    | anchored | align => exact ⟨nofun, nofun, nofun⟩
  | fork f => exact ⟨nofun, nofun, nofun⟩
  | guard g =>
    refine ⟨?_, nofun, nofun⟩
    obtain ⟨_, _, hpasses, -⟩ := bind_eq_ok_iff.1 h
    obtain ⟨_, _, hholds, -⟩ := bind_eq_ok_iff.1 hpasses
    obtain ⟨condition, negated⟩ := g
    cases condition with
    | block p predicate =>
      obtain ⟨_, _, hblock, -⟩ := bind_eq_ok_iff.1 hholds
      exact List.forall_mem_singleton.2 (not_mixed_of_bind (Effect.ofExcept_ok hblock))
    | entity | score | scoreMatches => nofun

end

/-! ## Places -/

section

variable {W : Type} [WorldView W] {s : Subcommand} {index : Nat} {world : W} {c : Context}
  {random random' : Random}

/-- The errors of a numbered subcommand have its text and number as their place. -/
theorem applyAt_eq_error_iff {e : Error} :
    s.applyAt index world c random = .error e random' ↔
      ∃ fault, s.apply world c random = .error ⟨fault, none⟩ random' ∧
        e = ⟨fault, some ⟨some (toString s), some index⟩⟩ := by
  simp only [Subcommand.applyAt, Effect.within]
  cases h : s.apply world c random with
  | ok children random'' => simp
  | error e' random'' =>
    obtain ⟨fault, place⟩ := e'
    obtain rfl : place = none := (s.fails_apply world c _ _ _ h).place
    simp only [Error.within, EStateM.Result.error.injEq, Error.mk.injEq, and_true]
    constructor
    · rintro ⟨rfl, rfl⟩
      exact ⟨fault, ⟨rfl, rfl⟩, rfl⟩
    · rintro ⟨_, ⟨rfl, rfl⟩, rfl⟩
      exact ⟨rfl, rfl⟩

theorem applyAt_eq_ok_iff {children : List Context} :
    s.applyAt index world c random = .ok children random' ↔
      s.apply world c random = .ok children random' := by
  simp only [Subcommand.applyAt, Effect.within]
  cases s.apply world c random <;> simp

end

/-! ## Numbers -/

/-- The error with `k` added to the number of the subcommand it names. -/
def Error.shifted (k : Nat) (e : Error) : Error :=
  { e with place := e.place.map fun p => { p with subcommand := p.subcommand.map (· + k) } }

theorem applyAt_add {W : Type} [WorldView W] (s : Subcommand) (index k : Nat) (world : W)
    (c : Context) (random : Random) :
    s.applyAt (index + k) world c random =
      mapError (Error.shifted k) (s.applyAt index world c random) := by
  cases h : s.applyAt index world c random with
  | ok children random' => exact applyAt_eq_ok_iff.2 (applyAt_eq_ok_iff.1 h)
  | error e random' =>
    obtain ⟨fault, ha, rfl⟩ := applyAt_eq_error_iff.1 h
    exact applyAt_eq_error_iff.2 ⟨fault, ha, rfl⟩

end CommandChain
