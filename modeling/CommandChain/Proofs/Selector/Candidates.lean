import CommandChain.Proofs.Collection.OrderedMap
import CommandChain.Selector.Resolution
import CommandChain.World.Basic
import Mathlib.Data.List.Nodup

/-!
# Candidates

What a world's searches list, and what `Selector.candidates` makes of them. A
type that is not for the living only is searched for twice in each dimension,
once without the type of players and once for players. No entity is listed twice
if all players are of that type.
-/

namespace CommandChain

/-- The records with player state are of the type of players. -/
def World.PlayersTyped (w : World) : Prop :=
  ∀ id e, w.entities.get? id = some e → e.isPlayer → e.entityType = playerType

instance (w : World) : Decidable w.PlayersTyped :=
  decidable_of_iff _ OrderedMap.forall_get?_iff.symm

theorem qualify_playerType : qualify playerType = playerType := by decide

namespace EntityQuery

theorem admitsIdentity_excluding (q : EntityQuery) {type : String} (ht : qualify type = type)
    (e : Entity) :
    ({ q with excludeTypes := q.excludeTypes ++ [type] }).admitsIdentity e =
      (q.admitsIdentity e && e.entityType != type) := by
  simp only [admitsIdentity, List.any_append, List.any_cons, List.any_nil, ht]
  by_cases he : e.entityType = type
  · simp [he]
  · have hb : (type == e.entityType) = false := beq_false_of_ne (Ne.symm he)
    simp [hb, bne_iff_ne.2 he]

/-- Leaving out a further type that has its namespace. -/
theorem admits_excluding (q : EntityQuery) {type : String} (ht : qualify type = type)
    (holder : ScoreHolder) (e : Entity) (board : Scoreboard) :
    ({ q with excludeTypes := q.excludeTypes ++ [type] }).admits holder e board ↔
      q.admits holder e board ∧ e.entityType ≠ type := by
  unfold admits
  rw [admitsIdentity_excluding q ht]
  change (q.admitsPlacement e && _ && q.admitsPlayer e && q.admitsScores holder board) = true ↔ _
  simp only [Bool.and_eq_true, bne_iff_ne]
  constructor
  · rintro ⟨⟨⟨hp, hi, ht⟩, hl⟩, hs⟩
    exact ⟨⟨⟨⟨hp, hi⟩, hl⟩, hs⟩, ht⟩
  · rintro ⟨⟨⟨⟨hp, hi⟩, hl⟩, hs⟩, ht⟩
    exact ⟨⟨⟨hp, hi, ht⟩, hl⟩, hs⟩

/-- Tags are all that it asks for. -/
theorem admits_tagged (centre : Vec3) (tags : List String) (holder : ScoreHolder) (e : Entity)
    (board : Scoreboard) :
    ({ around centre with tags := tags }).admits holder e board = tags.all e.tags.has := by
  simp [admits, admitsPlacement, admitsIdentity, admitsPlayer, admitsScores, around, between,
    asksForPlayer]

/-! ### Player state -/

/-- Nothing is asked of player state if the query does not ask for it. -/
theorem admitsPlayerState_of_not_asks {q : EntityQuery} (h : q.asksForPlayer = false)
    (p : PlayerState) : q.admitsPlayerState p := by
  simp only [asksForPlayer, Bool.or_eq_false_iff, Option.isSome_eq_false_iff,
    Option.isNone_iff_eq_none, Bool.not_eq_false', List.isEmpty_iff] at h
  obtain ⟨⟨⟨hmode, hmodes⟩, hmin⟩, hmax⟩ := h
  simp [admitsPlayerState, hmode, hmodes, hmin, hmax]

theorem admitsPlayer_of_player (q : EntityQuery) {e : Entity} {p : PlayerState}
    (he : e.player = some p) : q.admitsPlayer e = q.admitsPlayerState p := by
  rw [admitsPlayer, he, Option.any_some]
  cases hq : q.asksForPlayer with
  | true => exact Bool.false_or _
  | false => rw [admitsPlayerState_of_not_asks hq p]; rfl

theorem admitsPlayer_of_no_player (q : EntityQuery) {e : Entity} (he : e.player = none) :
    q.admitsPlayer e = !q.asksForPlayer := by
  rw [admitsPlayer, he, Option.any_none, Bool.or_false]

end EntityQuery

namespace World

variable {w : World} {dimension : DimensionId} {q : EntityQuery} {id : EntityId}

theorem mem_inDimension {e : Entity} : (id, e) ∈ w.inDimension dimension q ↔
    w.entities.get? id = some e ∧ e.dimension = dimension ∧
      q.admits (.entity id) e w.scoreboard := by
  simp only [inDimension, List.mem_filter, OrderedMap.mem_entries_iff, Bool.and_eq_true,
    beq_iff_eq]

/-- What a search for a kind of entity lists, such as the living. -/
theorem mem_found {kind : EntityId × Entity → Bool} :
    id ∈ ((w.inDimension dimension q).filter kind).map (·.1) ↔
      ∃ e, w.entities.get? id = some e ∧ e.dimension = dimension ∧
        q.admits (.entity id) e w.scoreboard ∧ kind (id, e) := by
  simp only [List.mem_map, List.mem_filter, Prod.exists, mem_inDimension]
  constructor
  · rintro ⟨_, e, ⟨⟨he, hd, hq⟩, hk⟩, rfl⟩
    exact ⟨e, he, hd, hq, hk⟩
  · rintro ⟨e, he, hd, hq, hk⟩
    exact ⟨id, e, ⟨⟨he, hd, hq⟩, hk⟩, rfl⟩

theorem mem_living : id ∈ w.living dimension q ↔
    ∃ e, w.entities.get? id = some e ∧ e.dimension = dimension ∧
      q.admits (.entity id) e w.scoreboard ∧ e.alive :=
  mem_found

theorem mem_players : id ∈ w.players dimension q ↔
    ∃ e, w.entities.get? id = some e ∧ e.dimension = dimension ∧
      q.admits (.entity id) e w.scoreboard ∧ e.isPlayer :=
  mem_found

theorem living_sublist : (w.living dimension q).Sublist w.entities.keys :=
  (List.filter_sublist.trans List.filter_sublist).map _

theorem players_sublist : (w.players dimension q).Sublist w.entities.keys :=
  (List.filter_sublist.trans List.filter_sublist).map _

theorem nodup_living : (w.living dimension q).Nodup := living_sublist.nodup w.entities.nodup_keys

theorem nodup_players : (w.players dimension q).Nodup := players_sublist.nodup w.entities.nodup_keys

end World

namespace Selector

variable {s : Selector} {w : World} {c : Context} {dimension : DimensionId} {q : EntityQuery}
  {id : EntityId}

/-- Dead players count as present unless the type is for the living only. -/
def Present (s : Selector) (e : Entity) : Prop :=
  if s.type.aliveOnly then e.alive = true
  else (e.alive ∧ e.entityType ≠ playerType) ∨ e.isPlayer

theorem mem_candidatesIn : id ∈ s.candidatesIn w q dimension ↔
    ∃ e, w.entities.get? id = some e ∧ e.dimension = dimension ∧
      q.admits (.entity id) e w.scoreboard ∧ s.Present e := by
  unfold candidatesIn Present
  by_cases ha : s.type.aliveOnly
  · simp only [if_pos ha]
    exact World.mem_living
  · simp only [if_neg ha, List.mem_append]
    refine (or_congr World.mem_living World.mem_players).trans ?_
    simp only [EntityQuery.admits_excluding q qualify_playerType]
    constructor
    · rintro (⟨e, he, hd, ⟨hq, ht⟩, hl⟩ | ⟨e, he, hd, hq, hp⟩)
      · exact ⟨e, he, hd, hq, .inl ⟨hl, ht⟩⟩
      · exact ⟨e, he, hd, hq, .inr hp⟩
    · rintro ⟨e, he, hd, hq, ⟨hl, ht⟩ | hp⟩
      · exact .inl ⟨e, he, hd, ⟨hq, ht⟩, hl⟩
      · exact .inr ⟨e, he, hd, hq, hp⟩

theorem nodup_candidatesIn_of_aliveOnly (ha : s.type.aliveOnly) :
    (s.candidatesIn w q dimension).Nodup := by
  unfold candidatesIn
  rw [if_pos ha]
  exact World.nodup_living

theorem nodup_candidatesIn (hp : w.PlayersTyped) : (s.candidatesIn w q dimension).Nodup := by
  by_cases ha : s.type.aliveOnly
  · exact nodup_candidatesIn_of_aliveOnly ha
  · unfold candidatesIn
    simp only [if_neg ha]
    refine List.nodup_append'.2 ⟨World.nodup_living, World.nodup_players, fun id hl hr => ?_⟩
    obtain ⟨e, he, _, hq, _⟩ := World.mem_living.1 hl
    obtain ⟨e', he', _, _, hpl⟩ := World.mem_players.1 hr
    rw [he] at he'
    cases he'
    exact ((EntityQuery.admits_excluding q qualify_playerType _ _ _).1 hq).2 (hp id e he hpl)

theorem mem_candidates : id ∈ s.candidates w c q ↔
    ∃ e, w.entities.get? id = some e ∧ e.dimension ∈ s.dimensions w c ∧
      q.admits (.entity id) e w.scoreboard ∧ s.Present e := by
  simp only [candidates, List.mem_flatMap, mem_candidatesIn]
  constructor
  · rintro ⟨_, hd, e, he, rfl, hq, hs⟩
    exact ⟨e, he, hd, hq, hs⟩
  · rintro ⟨e, he, hd, hq, hs⟩
    exact ⟨e.dimension, hd, e, he, rfl, hq, hs⟩

theorem nodup_dimensions : (s.dimensions w c).Nodup := by
  unfold dimensions
  split
  · exact List.nodup_singleton _
  · exact w.dimensions.nodup_keys

theorem nodup_candidates_of_candidatesIn (h : ∀ d, (s.candidatesIn w q d).Nodup) :
    (s.candidates w c q).Nodup := by
  refine List.nodup_flatMap.2 ⟨fun d _ => h d, ?_⟩
  refine nodup_dimensions.imp ?_
  intro d d' hne id h h'
  -- An entity is in one dimension only.
  obtain ⟨e, he, rfl, _⟩ := mem_candidatesIn.1 h
  obtain ⟨e', he', rfl, _⟩ := mem_candidatesIn.1 h'
  rw [he] at he'
  cases he'
  exact hne rfl

theorem nodup_candidates (hp : w.PlayersTyped) : (s.candidates w c q).Nodup :=
  nodup_candidates_of_candidatesIn fun _ => nodup_candidatesIn hp

theorem nodup_candidates_of_aliveOnly (ha : s.type.aliveOnly) : (s.candidates w c q).Nodup :=
  nodup_candidates_of_candidatesIn fun _ => nodup_candidatesIn_of_aliveOnly ha

end Selector

end CommandChain
