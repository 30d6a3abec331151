import CommandChain.Proofs.Selector.Accepted
import CommandChain.Proofs.Selector.Written
import CommandChain.Proofs.World.Operation
import Mathlib.Data.List.Nodup

/-!
# What a selector picks

`Selects` says which entities a selector of the standard registry is after, from
its type and its arguments alone. `resolve_selects` says that resolving it lists
those entities, each once, up to the limit.
-/

/-! ## Shuffled lists -/

namespace CommandChain.Random

variable {α : Type}

theorem swap_perm (l : List α) (i j : Nat) : (swap l i j).Perm l := by
  unfold swap
  split
  · next a b ha hb =>
    obtain ⟨hi, rfl⟩ := List.getElem?_eq_some_iff.1 ha
    obtain ⟨hj, rfl⟩ := List.getElem?_eq_some_iff.1 hb
    exact List.set_set_perm hi hj
  · exact .refl l

theorem shuffleFrom_perm (i : Nat) (l : List α) (r : Random) : (shuffleFrom i l r).1.Perm l := by
  induction i generalizing l r with
  | zero => exact .refl l
  | succ i ih =>
    simp only [shuffleFrom]
    exact (ih _ _).trans (swap_perm l _ _)

theorem shuffle_perm (l : List α) (r : Random) : (r.shuffle l).1.Perm l :=
  shuffleFrom_perm _ l r

end CommandChain.Random

namespace CommandChain.Selector

open SelectorRegistry

/-! ## The centre -/

theorem isLocal_coordinate (s : Selector) (axis : String) :
    (s.coordinate axis).isLocal = false := by
  unfold coordinate
  split
  · rfl
  · next value _ _ => cases value.number? <;> rfl
  · rfl

theorem centre_eq {W : Type} [WorldView W] {s : Selector} {w : W} {c : Context} {here : Vec3}
    (h : c.point w = .ok here) : s.centre w c = .ok ⟨(s.coordinate "x").against here.x,
      (s.coordinate "y").against here.y, (s.coordinate "z").against here.z⟩ := by
  unfold centre
  rw [h]
  refine if_pos ?_
  simp [PositionExpr.coords, isLocal_coordinate]

/-- The centre is there whenever the context's point is. -/
theorem exists_centre {W : Type} [WorldView W] {s : Selector} {w : W} {c : Context} {here : Vec3}
    (h : c.point w = .ok here) : ∃ centre, s.centre w c = .ok centre := ⟨_, centre_eq h⟩

theorem centres_iff {s : Selector} {axis : String} {here x : Float} :
    s.Centres axis here x ↔ (s.coordinate axis).against here = x := by
  simp only [Centres, ← number?_eq_some_iff, ← first?_eq_some_iff, number?, coordinate]
  cases s.first? axis with
  | none => simp [Coord.against, Coord.relative, eq_comm]
  | some value =>
    cases value <;>
      simp [ArgValue.number?, Coord.against, Coord.relative, Coord.absolute, eq_comm]

/-- It is where the written coordinates put it. -/
theorem centred_iff {W : Type} [WorldView W] {s : Selector} {w : W} {c : Context}
    {here centre : Vec3} (h : c.point w = .ok here) :
    s.Centred here centre ↔ s.centre w c = .ok centre := by
  rw [centre_eq h, Except.ok.injEq]
  constructor
  · rintro ⟨hx, hy, hz⟩
    rw [centres_iff.1 hx, centres_iff.1 hy, centres_iff.1 hz]
  · rintro rfl
    exact ⟨centres_iff.2 rfl, centres_iff.2 rfl, centres_iff.2 rfl⟩

/-! ## The rules of the standard registry -/

/-- The type is limited to players, whatever the arguments. -/
def playersOnly (s : Selector) : Prop := s.type.name ∈ ["", "a", "p"]

/-- What the standard registry makes sure of. -/
structure Standard (s : Selector) : Prop extends s.Spelling where
  type : s.type ∈ nameType :: standardTypes

theorem aliveOnly_iff : ∀ t ∈ nameType :: standardTypes, t.aliveOnly ↔ t.name = "e" := by decide

theorem restriction_eq : ∀ t ∈ nameType :: standardTypes, t.restriction =
    if t.name ∈ ["", "a", "p"] then some ⟨playerType, false⟩
    else if t.name = "r" then some ⟨playerType, true⟩
    else none := by
  decide

theorem limit_eq : ∀ t ∈ nameType :: standardTypes,
    t.limit = if t.name ∈ ["a", "e"] then none else some 1 := by
  decide

theorem narrowing_eq : ∀ t ∈ nameType :: standardTypes, t.narrowing =
    if t.name = "s" then some executorOnly else none := by
  intro t ht
  simp only [standardTypes, List.mem_cons, List.not_mem_nil, or_false] at ht
  rcases ht with rfl | rfl | rfl | rfl | rfl | rfl <;> rfl

/-- The shape of `m` admits names of game modes only. -/
theorem exists_names_of_matches {value : ArgValue}
    (h : (Shape.union [.oneOf gameModeWords, .intOneOf gameModeNumbers]).matchesValue value) :
    ∃ mode : GameMode, mode.Names value := by
  cases value with
  | text word =>
    have hword : word ∈ gameModeWords := by
      simpa [Shape.matchesValue, Shape.matchesSome] using h
    simp only [gameModeWords, List.mem_cons, List.not_mem_nil, or_false] at hword
    rcases hword with rfl | rfl | rfl | rfl | rfl | rfl | rfl
    · exact ⟨.survival, .inl rfl⟩
    · exact ⟨.survival, .inr (.inl rfl)⟩
    · exact ⟨.creative, .inl rfl⟩
    · exact ⟨.creative, .inr (.inl rfl)⟩
    · exact ⟨.adventure, .inl rfl⟩
    · exact ⟨.adventure, .inr (.inl rfl)⟩
    · exact ⟨.spectator, .inl rfl⟩
  | int n =>
    have hnumber : n ∈ gameModeNumbers := by
      simpa [Shape.matchesValue, Shape.matchesSome] using h
    simp only [gameModeNumbers, List.mem_cons, List.not_mem_nil, or_false] at hnumber
    rcases hnumber with rfl | rfl | rfl | rfl
    · exact ⟨.survival, .inr (.inr rfl)⟩
    · exact ⟨.creative, .inr (.inr rfl)⟩
    · exact ⟨.adventure, .inr (.inr rfl)⟩
    · exact ⟨.spectator, .inr rfl⟩
  | bool | float | range | relative | map | list =>
    simp [Shape.matchesValue, Shape.matchesSome] at h

/-- The shape of `scores` admits ranges only. -/
theorem range?_of_matches {entries : List (Entry ArgValue)}
    (h : (Shape.mapOf count).matchesValue (.map entries)) :
    ∀ entry ∈ entries, entry.value.range?.isSome := by
  intro entry hentry
  have hcount : count.matchesValue entry.value :=
    List.all_eq_true.1 (by simpa [Shape.matchesValue] using h) entry hentry
  cases hv : entry.value with
  | int => rfl
  | range => rfl
  | bool | float | relative | text | map | list =>
    simp [hv, count, Shape.matchesValue, Shape.matchesSome] at hcount

theorem grouped_grouped (type : SelectorType) (written : List (Entry ArgValue)) :
    Grouped ⟨type, grouped written⟩ := by
  intro name _
  rw [Given, get_grouped, has, OrderedMap.contains, get?_grouped]
  split
  · next h => simp [h]
  · next h => exact iff_of_true rfl h

theorem standard_of_parse {text : String} {s : Selector} (h : parse .standard text = .ok s) :
    s.Standard := by
  obtain ⟨name⟩ | ⟨_, htype, _, hbuild⟩ := accepted_of_parse h
  · have hget (key : String) (hkey : key ≠ "name") : (ofName name).get key = [] := by
      rw [get_ofName, if_neg hkey]
    refine ⟨⟨grouped_grouped _ _, fun a ha => ?_, ?_⟩, List.mem_cons_self⟩
    · rw [hget "m" (by decide)] at ha
      cases ha
    · rintro entries ⟨_, _, hfirst⟩
      rw [hget "scores" (by decide)] at hfirst
      cases hfirst
  · refine ⟨⟨?_, fun a ha => ?_, ?_⟩, ?_⟩
    · obtain ⟨_, _, rfl⟩ := build_eq_ok_iff.1 hbuild
      exact grouped_grouped _ _
    · obtain ⟨spec, hspec, _, hm, _⟩ := check_eq_ok_iff.1 (check_of_build hbuild ha)
      rw [argument?_mode] at hspec
      cases hspec
      exact exists_names_of_matches hm
    · rintro entries ⟨inverted, rest, hfirst⟩
      have hmem : ⟨inverted, .map entries⟩ ∈ s.get "scores" := hfirst ▸ List.mem_cons_self
      obtain ⟨spec, hspec, _, hm, _⟩ := check_eq_ok_iff.1 (check_of_build hbuild hmem)
      rw [argument?_scores] at hspec
      cases hspec
      exact range?_of_matches hm
    · obtain ⟨_, _, rfl⟩ := build_eq_ok_iff.1 hbuild
      exact .tail _ (mem_standardTypes htype)

/-! ## The entities listed -/

/-- The conditions under which a selector picks an entity. -/
structure Selects (s : Selector) (w : World) (c : Context) (centre : Vec3) (id : EntityId)
    (e : Entity) : Prop where
  /-- In the context's dimension if a distance or a volume is given. -/
  placed : if ∃ name ∈ ["dx", "dy", "dz", "r", "rm"], s.Given name
    then e.dimension = c.dimension else e.dimension ∈ w.dimensions.toList
  /-- Dead players are present unless the type is `@e`. -/
  present : if s.type.name = "e" then e.alive = true
    else (e.alive ∧ e.entityType ≠ playerType) ∨ e.isPlayer
  meets : s.Meets w.scoreboard centre id e
  typed : s.playersOnly ∨ (s.type.name = "r" ∧ ¬ s.Given "type") → e.entityType = playerType
  permitted : ∀ entries, s.First "haspermission" (.map entries) →
    ∃ p, e.player = some p ∧ ∀ entry ∈ entries,
      ((p.permission entry.key ↔ entry.value = .text "enabled") ↔ ¬ entry.inverted)
  executor : s.type.name = "s" → c.executor = some id

/-- The count, or one unless the type is `@a` or `@e`. -/
def cap (s : Selector) : Option Nat :=
  match s.get "c" with
  | ⟨_, .int n⟩ :: _ => some n.toInt.natAbs
  | _ => if s.type.name ∈ ["a", "e"] then none else some 1

section

variable {s : Selector} {w : World} {c : Context} {id : EntityId} {e : Entity}

theorem satisfiesType_iff (hs : s.Standard) (he : w.entity? id = some e) :
    s.satisfiesType w id ↔
      (s.playersOnly ∨ (s.type.name = "r" ∧ ¬ s.Given "type") → e.entityType = playerType) := by
  have hview : WorldView.entity? w id = some e := he
  unfold satisfiesType requiredType? playersOnly
  rw [restriction_eq _ hs.type, hview, ← hs.grouped "type" (by decide)]
  by_cases hp : s.type.name ∈ ["", "a", "p"]
  · simp [hp]
  · by_cases hr : s.type.name = "r"
    · cases ht : s.has "type" <;> simp [hr]
    · simp [hp, hr]

theorem permits_iff (entries : List (Entry ArgValue)) (p : PlayerState) :
    permits entries p ↔ ∀ entry ∈ entries,
      ((p.permission entry.key ↔ entry.value = .text "enabled") ↔ ¬ entry.inverted) := by
  simp only [permits, List.all_eq_true]
  refine forall₂_congr fun entry _ => ?_
  rw [← text?_eq_some_iff]
  cases p.permission entry.key <;> cases entry.inverted <;> simp

theorem satisfiesPermissions_iff (he : w.entity? id = some e) :
    s.satisfiesPermissions w id ↔ ∀ entries, s.First "haspermission" (.map entries) →
      ∃ p, e.player = some p ∧ ∀ entry ∈ entries,
        ((p.permission entry.key ↔ entry.value = .text "enabled") ↔ ¬ entry.inverted) := by
  have hview : WorldView.entity? w id = some e := he
  simp only [← permits_iff, ← mapEntries?_eq_some_iff, satisfiesPermissions, hview,
    Option.bind_some, Option.all_eq_true, Option.any_eq_true]

theorem present_iff (hs : s.Standard) : s.Present e ↔
    if s.type.name = "e" then e.alive = true
    else (e.alive ∧ e.entityType ≠ playerType) ∨ e.isPlayer := by
  unfold Present
  simp only [aliveOnly_iff _ hs.type]

theorem mem_dimensions (hs : s.Standard) {dimension : DimensionId} :
    dimension ∈ s.dimensions w c ↔ if ∃ name ∈ ["dx", "dy", "dz", "r", "rm"], s.Given name
      then dimension = c.dimension else dimension ∈ w.dimensions.toList := by
  have hspatial : s.isSpatial ↔ ∃ name ∈ ["dx", "dy", "dz", "r", "rm"], s.Given name :=
    any_has_iff hs.grouped (by decide)
  unfold dimensions
  by_cases h : s.isSpatial
  · rw [if_pos h, if_pos (hspatial.1 h)]
    exact List.mem_singleton
  · rw [if_neg h, if_neg fun hgiven => h (hspatial.2 hgiven)]
    rfl

theorem mem_narrowed (hs : s.Standard) {ids : List EntityId} :
    id ∈ s.narrowed c ids ↔ id ∈ ids ∧ (s.type.name = "s" → c.executor = some id) := by
  unfold narrowed
  rw [narrowing_eq _ hs.type]
  by_cases ht : s.type.name = "s"
  · simp only [if_pos ht, executorOnly]
    cases c.executor with
    | none => simp [ht]
    | some executor =>
      simp only [Option.mem_toList, Option.filter_eq_some_iff, ht, true_imp_iff]
      simp only [List.contains_iff_mem, Option.some.injEq, and_comm]
  · simp [ht]

theorem nodup_narrowed (hs : s.Standard) {ids : List EntityId} (h : ids.Nodup) :
    (s.narrowed c ids).Nodup := by
  unfold narrowed
  rw [narrowing_eq _ hs.type]
  by_cases ht : s.type.name = "s"
  · simp only [if_pos ht, executorOnly]
    cases Option.filter ids.contains c.executor <;> simp
  · simpa only [if_neg ht] using h

section

variable {W : Type} [WorldView W]

/-- The candidates that the type and the permissions allow. -/
def admitted (s : Selector) (w : W) (c : Context) (centre : Vec3) : List EntityId :=
  (s.candidates w c (s.spelled centre)).filter fun id =>
    s.satisfiesType w id && s.satisfiesPermissions w id

theorem exists_ordered (s : Selector) (w : W) (centre : Vec3) (ids : List EntityId)
    (random : Random) :
    ∃ listed random', listed.Perm ids ∧ s.ordered w centre ids random = .ok listed random' := by
  unfold ordered
  split
  · exact ⟨_, random, List.mergeSort_perm _ _, rfl⟩
  · exact ⟨_, _, Random.shuffle_perm ids random, rfl⟩

/-- A selector with a centre is resolved: the admitted candidates are ordered, narrowed and
cut off. -/
theorem resolve_of_centre {s : Selector} (hm : s.NamesModes) {w : W} {c : Context} {centre : Vec3}
    (hc : s.centre w c = .ok centre) {random random' : Random} {listed : List EntityId}
    (hord : s.ordered w centre (s.admitted w c centre) random = .ok listed random') :
    s.resolve w c random = .ok (s.limited (s.narrowed c listed)) random' := by
  unfold resolve
  rw [hc]
  change (do
    let q ← Effect.ofExcept (s.query centre)
    let ids ← s.ordered w centre _
    return s.limited (s.narrowed c ids) : Effect Random (List EntityId)) random = _
  rw [query_eq_spelled hm]
  exact bind_of_ok hord

end

/-- Narrowed down, the admitted candidates are the entities to be picked. -/
theorem mem_narrowed_admitted (hw : w.Consistent) (hs : s.Standard) {centre : Vec3}
    {listed : List EntityId} (hperm : listed.Perm (s.admitted w c centre)) :
    id ∈ s.narrowed c listed ↔ ∃ e, w.entity? id = some e ∧ s.Selects w c centre id e := by
  rw [mem_narrowed hs, hperm.mem_iff, admitted, List.mem_filter, mem_candidates, Bool.and_eq_true]
  constructor
  · rintro ⟨⟨⟨e, he, hd, hq, hpr⟩, hty, hpe⟩, hex⟩
    have he' : w.entity? id = some e := (hw.entity?_eq id).trans he
    exact ⟨e, he', (mem_dimensions hs).1 hd, (present_iff hs).1 hpr,
      (admits_spelled_iff hs.toSpelling).1 hq,
      (satisfiesType_iff hs he').1 hty, (satisfiesPermissions_iff he').1 hpe, hex⟩
  · rintro ⟨e, he', h⟩
    have he : w.entities.get? id = some e := (hw.entity?_eq id).symm.trans he'
    exact ⟨⟨⟨e, he, (mem_dimensions hs).2 h.placed,
      (admits_spelled_iff hs.toSpelling).2 h.meets, (present_iff hs).2 h.present⟩,
      (satisfiesType_iff hs he').2 h.typed, (satisfiesPermissions_iff he').2 h.permitted⟩,
      h.executor⟩

/-- Before it is cut off, the list holds the entities to be picked. -/
theorem exists_listed (hw : w.Consistent) (hs : s.Standard) {centre : Vec3}
    (hc : s.centre w c = .ok centre) (random : Random) :
    ∃ listed random', ((s.admitted w c centre).Nodup → listed.Nodup) ∧
      (∀ id, id ∈ listed ↔ ∃ e, w.entity? id = some e ∧ s.Selects w c centre id e) ∧
      s.resolve w c random = .ok (s.limited listed) random' := by
  obtain ⟨listed, random', hperm, hord⟩ :=
    exists_ordered s w centre (s.admitted w c centre) random
  refine ⟨s.narrowed c listed, random', fun hadm => ?_, fun id => mem_narrowed_admitted hw hs hperm,
    resolve_of_centre hs.modes.namesModes hc hord⟩
  exact nodup_narrowed hs (hperm.nodup_iff.2 hadm)

/-- Each of them once, if all players are of the type of players. -/
theorem exists_listing (hw : w.Consistent) (hp : w.PlayersTyped) (hs : s.Standard) {centre : Vec3}
    (hc : s.centre w c = .ok centre) (random : Random) :
    ∃ listed random', listed.Nodup ∧
      (∀ id, id ∈ listed ↔ ∃ e, w.entity? id = some e ∧ s.Selects w c centre id e) ∧
      s.resolve w c random = .ok (s.limited listed) random' := by
  obtain ⟨listed, random', hnodup, h⟩ := exists_listed hw hs hc random
  exact ⟨listed, random', hnodup ((nodup_candidates hp).filter _), h⟩

/-- If it is after one entity only, it picks this one, as far as its limit allows. -/
theorem resolve_of_only (hw : w.Consistent) (hp : w.PlayersTyped) (hs : s.Standard) {centre : Vec3}
    (hc : s.centre w c = .ok centre)
    (honly : ∀ id', (∃ e, w.entity? id' = some e ∧ s.Selects w c centre id' e) ↔ id' = id)
    (random : Random) : ∃ random', s.resolve w c random = .ok (s.limited [id]) random' := by
  obtain ⟨listed, random', hnodup, hmem, hres⟩ := exists_listing hw hp hs hc random
  have hsame : ∀ id', id' ∈ listed ↔ id' ∈ [id] := by
    intro id'
    rw [hmem, honly, List.mem_singleton]
  obtain rfl : listed = [id] := List.perm_singleton.1
    ((List.perm_ext_iff_of_nodup hnodup (List.nodup_singleton id)).2 hsame)
  exact ⟨random', hres⟩

theorem limit?_eq_cap (hs : s.Standard) : s.limit? = s.cap := by
  unfold limit? cap count? first?
  rw [limit_eq _ hs.type]
  cases s.get "c" with
  | nil => rfl
  | cons a rest =>
    obtain ⟨inverted, value⟩ := a
    cases value <;> rfl

/-- The list in its own or the reverse order, up to the limit. -/
theorem exists_limited (s : Selector) (ids : List EntityId) :
    ∃ l : List EntityId, l.Perm ids ∧ s.limited ids = match s.limit? with
      | some limit => l.take limit
      | none => l := by
  unfold limited
  by_cases hn : s.count?.any (· < 0)
  · refine ⟨ids.reverse, List.reverse_perm ids, ?_⟩
    cases s.limit? with
    | none => exact if_pos hn
    | some limit => exact congrArg (List.take limit) (if_pos hn)
  · refine ⟨ids, .refl ids, ?_⟩
    cases s.limit? with
    | none => exact if_neg hn
    | some limit => exact congrArg (List.take limit) (if_neg hn)

theorem limited_subset (s : Selector) (ids : List EntityId) : s.limited ids ⊆ ids := by
  obtain ⟨l, hperm, hlim⟩ := exists_limited s ids
  intro id hid
  rw [hlim] at hid
  refine hperm.mem_iff.1 ?_
  cases hn : s.limit? with
  | none => rw [hn] at hid; exact hid
  | some limit => rw [hn] at hid; exact List.mem_of_mem_take hid

/-- Resolving a selector lists the entities that it selects, each once, as many as
its limit leaves. -/
theorem resolve_selects (hw : w.Consistent) (hp : w.PlayersTyped) {text : String}
    (hs : parse .standard text = .ok s) {here : Vec3} (hc : c.point w = .ok here)
    (random : Random) :
    ∃ centre ids random', s.Centred here centre ∧ s.resolve w c random = .ok ids random' ∧
      ids.Nodup ∧ (∀ id ∈ ids, ∃ e, w.entity? id = some e ∧ s.Selects w c centre id e) ∧
      ∃ all : List EntityId, all.Nodup ∧
        (∀ id, id ∈ all ↔ ∃ e, w.entity? id = some e ∧ s.Selects w c centre id e) ∧
        match s.cap with
        | some cap => ids.length = min cap all.length
        | none => ids.Perm all := by
  have hst := standard_of_parse hs
  obtain ⟨centre, hcentre⟩ := exists_centre hc
  obtain ⟨all, random', hnodup, hmem, hres⟩ :=
    exists_listing hw hp hst hcentre random
  obtain ⟨l, hperm, hlim⟩ := exists_limited s all
  have hlnodup : l.Nodup := hperm.nodup_iff.2 hnodup
  have hlmem (id : EntityId) (h : id ∈ l) := (hmem id).1 (hperm.mem_iff.1 h)
  refine ⟨centre, s.limited all, random', (centred_iff hc).2 hcentre, hres, ?_⟩
  rw [hlim, limit?_eq_cap hst]
  cases s.cap with
  | none => exact ⟨hlnodup, hlmem, all, hnodup, hmem, hperm⟩
  | some cap =>
    refine ⟨(List.take_sublist _ _).nodup hlnodup, fun id h => hlmem id (List.mem_of_mem_take h),
      all, hnodup, hmem, ?_⟩
    dsimp only
    rw [List.length_take, hperm.length_eq]

end

/-- Of two cows, a pig and a player, each with points, the one cow whose points are in the
range. -/
theorem resolve_selects_cow :
    let w := (World.perform [.spawn (.ofType "cow"), .spawn (.ofType "cow"),
      .spawn (.ofType "pig"), .spawn (.ofPlayer "Alex"), .updateScores fun b =>
        [((0 : Nat), (9 : Int64)), (1, 3), (2, 4), (3, 5)].foldl (fun b (index, points) =>
          b.set "points" (.entity ⟨index, 1⟩) points) b]).2
    let c := Context.atPoint ⟨0, .server⟩ .overworld .zero
    ∃ s, parse .standard "@e[type=cow,scores=\x7bpoints=1..5\x7d]" = .ok s ∧
      ∃ centre ids random', s.Centred .zero centre ∧
        s.resolve w c (.ofSeed 1) = .ok ids random' ∧ ids = [⟨1, 1⟩] ∧
        ∀ id, (∃ e, w.entity? id = some e ∧ s.Selects w c centre id e) ↔ id = ⟨1, 1⟩ := by
  intro w c
  have hw : w.Consistent := World.consistent_perform _
  have hp : w.PlayersTyped := by decide +kernel
  have hc : c.point w = .ok .zero := rfl
  have hall : (parse .standard "@e[type=cow,scores=\x7bpoints=1..5\x7d]").toOption.any fun s =>
      s.cap = none ∧ value? (s.resolve w c (.ofSeed 1)) = some [⟨1, 1⟩] := by
    decide +kernel
  obtain ⟨s, hs, hpicks⟩ := exists_ok_of_any hall
  obtain ⟨hcap, hpicks⟩ := of_decide_eq_true hpicks
  obtain ⟨centre, ids, random', hcentre, hres, -, -, all, -, hmem, hcut⟩ :=
    resolve_selects hw hp hs hc (.ofSeed 1)
  rw [hres] at hpicks
  cases hpicks
  rw [hcap] at hcut
  refine ⟨s, hs, centre, _, random', hcentre, hres, rfl, fun id => ?_⟩
  rw [← hmem, ← hcut.mem_iff, List.mem_singleton]

end CommandChain.Selector
