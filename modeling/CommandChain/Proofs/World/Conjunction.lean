import CommandChain.Proofs.Selector.Candidates
import CommandChain.Proofs.World.Operation

/-!
# Queries are conjunctions

`EntityQuery.and` puts the conditions of two queries together: the lists one behind
the other, and each optional filter from the query that has it. If no optional filter
is in both (`EntityQuery.Apart`), what this admits is what both admit, part by part of
`EntityQuery.admits`.

Player state is the part where this could fail. It is one gate for four filters, and
an entity without player state does not pass it as soon as either query asks. So the
gate is put in terms of the entity: `EntityQuery.admitsPlayer_of_player` and
`EntityQuery.admitsPlayer_of_no_player`.
-/

namespace CommandChain

/-! ## Optional filters -/

namespace EntityQuery

section

variable {α : Type} {a b : Option α}

/-- The filter is not in both. -/
def NotBoth (a b : Option α) : Prop := a = none ∨ b = none

theorem NotBoth.all_or (h : NotBoth a b) (p : α → Bool) :
    (a.or b).all p = (a.all p && b.all p) := by
  rcases h with rfl | rfl
  · exact (Bool.true_and _).symm
  · cases a <;> simp

theorem NotBoth.any_or (h : NotBoth a b) (p : α → Bool) :
    (a.or b).any p = (a.any p || b.any p) := by
  rcases h with rfl | rfl
  · exact (Bool.false_or _).symm
  · cases a <;> simp

end

theorem between_or {min min' max max' : Option Float} (hmin : NotBoth min min')
    (hmax : NotBoth max max') (v : Float) :
    between (min.or min') (max.or max') v = (between min max v && between min' max' v) := by
  simp only [between, hmin.any_or, hmax.any_or, Bool.not_or]
  ac_rfl

/-! ## Two queries in one -/

/-- The conditions of both queries, at the place of the first. -/
def and (q r : EntityQuery) : EntityQuery where
  location := q.location
  maxDistance := q.maxDistance.or r.maxDistance
  minDistance := q.minDistance.or r.minDistance
  volume := q.volume.or r.volume
  entityType := q.entityType.or r.entityType
  excludeTypes := q.excludeTypes ++ r.excludeTypes
  name := q.name.or r.name
  excludeNames := q.excludeNames ++ r.excludeNames
  tags := q.tags ++ r.tags
  excludeTags := q.excludeTags ++ r.excludeTags
  families := q.families ++ r.families
  excludeFamilies := q.excludeFamilies ++ r.excludeFamilies
  gameMode := q.gameMode.or r.gameMode
  excludeGameModes := q.excludeGameModes ++ r.excludeGameModes
  minLevel := q.minLevel.or r.minLevel
  maxLevel := q.maxLevel.or r.maxLevel
  minPitch := q.minPitch.or r.minPitch
  maxPitch := q.maxPitch.or r.maxPitch
  minYaw := q.minYaw.or r.minYaw
  maxYaw := q.maxYaw.or r.maxYaw
  scores := q.scores ++ r.scores

/-- Queries from one place, with no optional filter in both. -/
structure Apart (q r : EntityQuery) : Prop where
  location : q.location = r.location
  maxDistance : NotBoth q.maxDistance r.maxDistance
  minDistance : NotBoth q.minDistance r.minDistance
  volume : NotBoth q.volume r.volume
  entityType : NotBoth q.entityType r.entityType
  name : NotBoth q.name r.name
  gameMode : NotBoth q.gameMode r.gameMode
  minLevel : NotBoth q.minLevel r.minLevel
  maxLevel : NotBoth q.maxLevel r.maxLevel
  minPitch : NotBoth q.minPitch r.minPitch
  maxPitch : NotBoth q.maxPitch r.maxPitch
  minYaw : NotBoth q.minYaw r.minYaw
  maxYaw : NotBoth q.maxYaw r.maxYaw

section

variable {q r : EntityQuery}

theorem admitsPlacement_and (h : q.Apart r) (e : Entity) :
    (q.and r).admitsPlacement e = (q.admitsPlacement e && r.admitsPlacement e) := by
  simp only [admitsPlacement, and, ← h.location, between_or h.minDistance h.maxDistance,
    h.volume.all_or, between_or h.minPitch h.maxPitch, between_or h.minYaw h.maxYaw]
  ac_rfl

theorem admitsIdentity_and (h : q.Apart r) (e : Entity) :
    (q.and r).admitsIdentity e = (q.admitsIdentity e && r.admitsIdentity e) := by
  simp only [admitsIdentity, and, h.entityType.all_or, h.name.all_or, List.all_append,
    List.any_append, Bool.not_or]
  ac_rfl

theorem admitsScores_and (q r : EntityQuery) (holder : ScoreHolder) (board : Scoreboard) :
    (q.and r).admitsScores holder board =
      (q.admitsScores holder board && r.admitsScores holder board) :=
  List.all_append

/-! ### Player state -/

theorem asksForPlayer_and (q r : EntityQuery) :
    (q.and r).asksForPlayer = (q.asksForPlayer || r.asksForPlayer) := by
  have hmodes : (q.excludeGameModes ++ r.excludeGameModes).isEmpty =
      (q.excludeGameModes.isEmpty && r.excludeGameModes.isEmpty) := by
    cases q.excludeGameModes <;> rfl
  simp only [asksForPlayer, and, Option.isSome_or, hmodes, Bool.not_and]
  ac_rfl

theorem admitsPlayerState_and (h : q.Apart r) (p : PlayerState) :
    (q.and r).admitsPlayerState p = (q.admitsPlayerState p && r.admitsPlayerState p) := by
  simp only [admitsPlayerState, and, h.gameMode.all_or, h.minLevel.all_or, h.maxLevel.all_or,
    List.contains_append, Bool.not_or]
  ac_rfl

theorem admitsPlayer_and (h : q.Apart r) (e : Entity) :
    (q.and r).admitsPlayer e = (q.admitsPlayer e && r.admitsPlayer e) := by
  cases he : e.player with
  | none => simp only [admitsPlayer_of_no_player _ he, asksForPlayer_and, Bool.not_or]
  | some p => simp only [admitsPlayer_of_player _ he, admitsPlayerState_and h]

theorem admits_and (h : q.Apart r) (holder : ScoreHolder) (e : Entity) (board : Scoreboard) :
    (q.and r).admits holder e board = (q.admits holder e board && r.admits holder e board) := by
  simp only [admits, admitsPlacement_and h, admitsIdentity_and h, admitsPlayer_and h,
    admitsScores_and]
  ac_rfl

end

theorem admits_around (location : Vec3) (holder : ScoreHolder) (e : Entity) (board : Scoreboard) :
    (around location).admits holder e board :=
  admits_tagged location [] holder e board

end EntityQuery

/-! ## Searches -/

namespace World

variable {q r : EntityQuery} (w : World) (dimension : DimensionId)

theorem inDimension_and (h : q.Apart r) : w.inDimension dimension (q.and r) =
    (w.inDimension dimension q).filter fun entry =>
      r.admits (.entity entry.1) entry.2 w.scoreboard := by
  rw [inDimension, inDimension, List.filter_filter]
  refine List.filter_congr fun entry _ => ?_
  simp only [EntityQuery.admits_and h]
  ac_rfl

/-- A search for a kind of entity finds for both queries what it finds for each. -/
theorem found_and (h : q.Apart r) (kind : EntityId × Entity → Bool) :
    ((w.inDimension dimension (q.and r)).filter kind).map (·.1) =
      (((w.inDimension dimension q).filter kind).map (·.1)).filter
        (· ∈ ((w.inDimension dimension r).filter kind).map (·.1)) := by
  rw [inDimension_and w dimension h, List.filter_map]
  simp only [List.filter_filter]
  refine congrArg _ (List.filter_congr ?_)
  rintro ⟨id, e⟩ he
  obtain ⟨hid, hd, -⟩ := mem_inDimension.1 he
  rw [Bool.eq_iff_iff]
  simp only [Bool.and_eq_true, Function.comp_apply, decide_eq_true_eq, mem_found]
  constructor
  · rintro ⟨hk, hr⟩
    exact ⟨⟨e, hid, hd, hr, hk⟩, hk⟩
  · rintro ⟨⟨e', hid', -, hr, hk⟩, -⟩
    cases hid.symm.trans hid'
    exact ⟨hk, hr⟩

theorem living_and (h : q.Apart r) : w.living dimension (q.and r) =
    (w.living dimension q).filter (· ∈ w.living dimension r) :=
  w.found_and dimension h _

theorem players_and (h : q.Apart r) : w.players dimension (q.and r) =
    (w.players dimension q).filter (· ∈ w.players dimension r) :=
  w.found_and dimension h _

end World

namespace EntityQuery

/-- A query with the conditions of two others admits what both admit, and one without
conditions admits every entity. So further conditions never make a search find more:
it finds, in the same order, what both searches find. -/
theorem conjunction (q r : EntityQuery) (h : q.Apart r) :
    (∀ (holder : ScoreHolder) (e : Entity) (board : Scoreboard),
      (q.and r).admits holder e board ↔ q.admits holder e board ∧ r.admits holder e board) ∧
    (∀ (location : Vec3) (holder : ScoreHolder) (e : Entity) (board : Scoreboard),
      (around location).admits holder e board) ∧
    ∀ (w : World) (dimension : DimensionId),
      (w.living dimension (q.and r)).Sublist (w.living dimension q) ∧
      w.living dimension (q.and r) =
        (w.living dimension q).filter (· ∈ w.living dimension r) ∧
      (w.players dimension (q.and r)).Sublist (w.players dimension q) ∧
      w.players dimension (q.and r) =
        (w.players dimension q).filter (· ∈ w.players dimension r) := by
  refine ⟨fun holder e board => ?_, admits_around, fun w dimension => ?_⟩
  · rw [admits_and h, Bool.and_eq_true]
  · rw [w.living_and dimension h, w.players_and dimension h]
    exact ⟨List.filter_sublist, rfl, List.filter_sublist, rfl⟩

/-- One query leaves out creative players, the other asks for a level. Neither asks for
players by type, and yet the cow is in neither search. -/
theorem conjunction_experienced :
    let q := { around .zero with excludeGameModes := [.creative] }
    let r := { around .zero with minLevel := some 3, excludeTypes := ["pig"] }
    let player (name : String) (mode : GameMode) (level : Int64) : Entity :=
      { Entity.ofPlayer name with player := some ⟨mode, level, ∅⟩ }
    let w := (World.perform [.spawn (.ofType "cow"), .spawn (player "Alex" .survival 0),
      .spawn (player "Kim" .creative 5), .spawn (player "Sam" .adventure 5)]).2
    q.Apart r ∧ w.living .overworld q = [⟨1, 1⟩, ⟨3, 1⟩] ∧
      w.living .overworld r = [⟨2, 1⟩, ⟨3, 1⟩] ∧ w.living .overworld (q.and r) = [⟨3, 1⟩] := by
  intro q r player w
  have h : q.Apart r :=
    ⟨rfl, .inl rfl, .inl rfl, .inl rfl, .inl rfl, .inl rfl, .inl rfl, .inl rfl, .inl rfl,
      .inl rfl, .inl rfl, .inl rfl, .inl rfl⟩
  have hq : w.living .overworld q = [⟨1, 1⟩, ⟨3, 1⟩] := by rfl
  have hr : w.living .overworld r = [⟨2, 1⟩, ⟨3, 1⟩] := by rfl
  refine ⟨h, hq, hr, ?_⟩
  rw [((conjunction q r h).2.2 w .overworld).2.1, hq, hr]
  rfl

end EntityQuery

end CommandChain
