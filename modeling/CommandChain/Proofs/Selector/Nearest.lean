import CommandChain.Proofs.Selector.Resolution
import CommandChain.Proofs.Space.Distance

/-!
# Selectors ordered by distance

What a selector ordered by distance is after, it lists by `listingOrder`: the nearest first,
and what is equally far in the order in which the search comes upon it (`searchOrder`). The
candidates are found in that order (`ranks_candidates`). They are sorted by a key for the
distance (`listingOrder_eq_lt_iff`), and sorting keeps the order of the search among the
equally far (`pairwise_mergeSort_key`).

A count cuts this one listing off, from its beginning or from its end, and changes nothing
else (`resolve_nearest`).
-/

namespace CommandChain

theorem zipIdxLE_iff {α : Type} {key : α → Int} {a b : α} {i j : Nat} :
    List.zipIdxLE (fun a b => key a ≤ key b) (a, i) (b, j) ↔
      key a < key b ∨ key a = key b ∧ i ≤ j := by
  simp only [List.zipIdxLE]
  split
  · next hab =>
    have hab := of_decide_eq_true hab
    split
    · next hba =>
      have heq : key a = key b := Int.le_antisymm hab (of_decide_eq_true hba)
      simp [heq]
    · next hba =>
      have hlt : key a < key b := Int.not_le.1 fun h => hba (decide_eq_true h)
      simp [hlt]
  · next hab =>
    have hlt : key b < key a := Int.not_le.1 fun h => hab (decide_eq_true h)
    simp only [Bool.false_eq_true, false_iff]
    omega

/-- Sorting by a key keeps the order of what has the same key. -/
theorem pairwise_mergeSort_key {α : Type} (key : α → Int) {R : α → α → Prop} {l : List α}
    (h : l.Pairwise R) :
    (l.mergeSort fun a b => key a ≤ key b).Pairwise fun a b =>
      key a < key b ∨ key a = key b ∧ R a b := by
  let le (a b : α) : Bool := key a ≤ key b
  have htrans (a b c : α) (hab : le a b) (hbc : le b c) : le a c :=
    decide_eq_true (Int.le_trans (of_decide_eq_true hab) (of_decide_eq_true hbc))
  have htotal (a b : α) : le a b || le b a := by
    simp only [le, Bool.or_eq_true, decide_eq_true_eq]
    omega
  -- Numbered by their places, the items with the same key stay in the order of the numbers.
  have hsorted := List.pairwise_mergeSort (List.zipIdxLE_trans htrans)
    (List.zipIdxLE_total htotal) l.zipIdx
  have hnodup : (l.zipIdx.mergeSort (List.zipIdxLE le)).Nodup := by
    refine (List.mergeSort_perm _ _).nodup_iff.2 (.of_map Prod.snd ?_)
    rw [List.zipIdx_map_snd]
    exact List.nodup_range'
  rw [← List.mergeSort_zipIdx, List.pairwise_map]
  refine (hsorted.and hnodup).imp_of_mem ?_
  rintro ⟨a, i⟩ ⟨b, j⟩ ha hb ⟨hle, hne⟩
  have hi : l[i]? = some a := List.mem_zipIdx_iff_getElem?.1 (List.mem_mergeSort.1 ha)
  have hj : l[j]? = some b := List.mem_zipIdx_iff_getElem?.1 (List.mem_mergeSort.1 hb)
  refine (zipIdxLE_iff.1 hle).imp_right fun ⟨heq, hij⟩ => ⟨heq, ?_⟩
  have hplaces : i ≠ j := by
    rintro rfl
    cases hi.symm.trans hj
    exact hne rfl
  obtain ⟨hilen, rfl⟩ := List.getElem?_eq_some_iff.1 hi
  obtain ⟨hjlen, rfl⟩ := List.getElem?_eq_some_iff.1 hj
  exact List.pairwise_iff_getElem.1 h i j hilen hjlen (by omega)

/-! ## Orders on entities -/

/-- An order on ids with their records. -/
abbrev EntityOrder := EntityId × Entity → EntityId × Entity → Ordering

namespace World

variable {w : World} {order : EntityOrder}

/-- Both ids have a record, and the order puts the first one before the second. -/
def Ranks (w : World) (order : EntityOrder) (a b : EntityId) : Prop :=
  ∃ e e', w.entity? a = some e ∧ w.entity? b = some e' ∧ order (a, e) (b, e') = .lt

instance {a b : EntityId} : Decidable (w.Ranks order a b) :=
  match ha : w.entity? a, hb : w.entity? b with
  | some e, some e' => decidable_of_iff (order (a, e) (b, e') = .lt) (by simp [Ranks, ha, hb])
  | none, _ => isFalse (by simp [Ranks, ha])
  | _, none => isFalse (by simp [Ranks, hb])

instance [Std.ReflCmp order] : Std.Irrefl (w.Ranks order) where
  irrefl := by
    rintro a ⟨e, e', he, he', hlt⟩
    rw [he] at he'
    cases he'
    have heq : order (a, e) (a, e) = .eq := Std.ReflCmp.compare_self
    rw [heq] at hlt
    cases hlt

instance [Std.OrientedCmp order] : Std.Antisymm (w.Ranks order) where
  antisymm := by
    rintro a b ⟨e, e', he, he', hlt⟩ ⟨f', f, hf', hf, hgt⟩
    rw [hf'] at he'
    rw [hf] at he
    cases he
    cases he'
    rw [Std.OrientedCmp.gt_iff_lt.2 hlt] at hgt
    cases hgt

end World

namespace Selector

/-- Players are searched for after all others, unless the type is for the living only. -/
def isLate (s : Selector) (e : Entity) : Bool := !s.type.aliveOnly && e.isPlayer

/-- The order in which a search comes upon entities: dimension by dimension, those that are
late after the others, by id. -/
def searchOrder (s : Selector) : EntityOrder :=
  compareLex (compareOn (·.2.dimension))
    (compareLex (compareOn fun r => s.isLate r.2) (compareOn (·.1)))

/-- The nearest first: by the distance from the centre in the total order of floats, in which
a negative NaN stands before all numbers and a positive one behind them. -/
def listingOrder (s : Selector) (centre : Vec3) : EntityOrder :=
  compareLex (compareOn fun r => centre.nanSign r.2.location)
    (compareLex (compareOn fun r => Number.rank (r.2.location.distance centre)) s.searchOrder)

instance (s : Selector) : Std.TransCmp s.searchOrder :=
  inferInstanceAs (Std.TransCmp (compareLex _ (compareLex _ _)))

instance (s : Selector) (centre : Vec3) : Std.TransCmp (s.listingOrder centre) :=
  inferInstanceAs (Std.TransCmp (compareLex _ (compareLex _ _)))

section

variable {s : Selector} {w : World} {c : Context} {dimension : DimensionId} {q : EntityQuery}
  {a b : EntityId} {e e' : Entity} {centre : Vec3}

theorem searchOrder_eq_lt_iff : s.searchOrder (a, e) (b, e') = .lt ↔
    compare e.dimension e'.dimension = .lt ∨ e.dimension = e'.dimension ∧
      (compare (s.isLate e) (s.isLate e') = .lt ∨
        s.isLate e = s.isLate e' ∧ compare a b = .lt) := by
  simp only [searchOrder, compareLex, compareOn, Ordering.then_eq_lt,
    Std.LawfulEqCmp.compare_eq_iff_eq]

/-- The listing goes by the key that the selector sorts by. -/
theorem listingOrder_eq_lt_iff : s.listingOrder centre (a, e) (b, e') = .lt ↔
    centre.remoteness e.location < centre.remoteness e'.location ∨
      centre.remoteness e.location = centre.remoteness e'.location ∧
        s.searchOrder (a, e) (b, e') = .lt := by
  rw [Vec3.remoteness_lt_iff, Vec3.remoteness_eq_iff, Vec3.Nearer]
  simp only [listingOrder, compareLex, compareOn, Ordering.then_eq_lt,
    Std.LawfulEqCmp.compare_eq_iff_eq, Int.compare_eq_lt]
  tauto

theorem remoteness_of_entity? (he : w.entity? a = some e) :
    remoteness w centre a = centre.remoteness e.location := by
  have hview : WorldView.entity? w a = some e := he
  rw [remoteness, hview]

/-- Nothing is nearer than what stands before it. -/
theorem not_nearer_of_ranks (h : w.Ranks (s.listingOrder centre) a b)
    (he : w.entity? a = some e) (he' : w.entity? b = some e') :
    ¬ centre.Nearer e'.location e.location := by
  obtain ⟨f, f', hf, hf', hlt⟩ := h
  rw [he] at hf
  rw [he'] at hf'
  cases hf
  cases hf'
  rw [← Vec3.remoteness_lt_iff]
  rcases listingOrder_eq_lt_iff.1 hlt with hlt | ⟨heq, -⟩ <;> omega

/-! ## The candidates in the order of the search -/

/-- One search goes through a dimension in the order of the ids. -/
theorem ranks_of_ascending {ids : List EntityId} {late : Bool}
    (hids : ids.Pairwise fun a b => compare a b = .lt)
    (h : ∀ id ∈ ids, ∃ e, w.entity? id = some e ∧ e.dimension = dimension ∧ s.isLate e = late) :
    ids.Pairwise (w.Ranks s.searchOrder) := by
  refine hids.imp_of_mem fun ha hb hab => ?_
  obtain ⟨e, he, hd, hl⟩ := h _ ha
  obtain ⟨e', he', hd', hl'⟩ := h _ hb
  refine ⟨e, e', he, he', searchOrder_eq_lt_iff.2 (.inr ⟨hd.trans hd'.symm, .inr ⟨?_, hab⟩⟩)⟩
  rw [hl, hl']

theorem ascending_keys {κ α : Type} [Ord κ] (m : OrderedMap κ α) :
    m.keys.Pairwise fun a b => compare a b = .lt :=
  List.pairwise_map.2 m.ascending

theorem ranks_candidatesIn (hw : w.Consistent) (hp : w.PlayersTyped) :
    (s.candidatesIn w q dimension).Pairwise (w.Ranks s.searchOrder) := by
  have hkeys := ascending_keys w.entities
  unfold candidatesIn
  by_cases ha : s.type.aliveOnly
  · rw [if_pos ha]
    have hliving : ∀ id ∈ WorldView.living w dimension q,
        ∃ e, w.entity? id = some e ∧ e.dimension = dimension ∧ s.isLate e = false := by
      intro id hid
      obtain ⟨e, he, hd, -, -⟩ := World.mem_living.1 hid
      exact ⟨e, (hw.entity?_eq id).trans he, hd, by simp [isLate, ha]⟩
    exact ranks_of_ascending (hkeys.sublist World.living_sublist) hliving
  · rw [if_neg ha]
    have hliving : ∀ id ∈ WorldView.living w dimension
        { q with excludeTypes := q.excludeTypes ++ [playerType] },
        ∃ e, w.entity? id = some e ∧ e.dimension = dimension ∧ s.isLate e = false := by
      intro id hid
      obtain ⟨e, he, hd, hq, -⟩ := World.mem_living.1 hid
      have htype := ((EntityQuery.admits_excluding q qualify_playerType _ _ _).1 hq).2
      have hplayer : e.isPlayer = false := Bool.eq_false_iff.2 fun h => htype (hp id e he h)
      exact ⟨e, (hw.entity?_eq id).trans he, hd, by simp [isLate, hplayer]⟩
    have hplayers : ∀ id ∈ WorldView.players w dimension q,
        ∃ e, w.entity? id = some e ∧ e.dimension = dimension ∧ s.isLate e = true := by
      intro id hid
      obtain ⟨e, he, hd, -, hplayer⟩ := World.mem_players.1 hid
      exact ⟨e, (hw.entity?_eq id).trans he, hd, by simp [isLate, ha, hplayer]⟩
    refine List.pairwise_append.2 ⟨ranks_of_ascending (hkeys.sublist World.living_sublist) hliving,
      ranks_of_ascending (hkeys.sublist World.players_sublist) hplayers, fun id hid id' hid' => ?_⟩
    obtain ⟨e, he, hd, hl⟩ := hliving id hid
    obtain ⟨e', he', hd', hl'⟩ := hplayers id' hid'
    refine ⟨e, e', he, he', searchOrder_eq_lt_iff.2 (.inr ⟨hd.trans hd'.symm, .inl ?_⟩)⟩
    rw [hl, hl']
    rfl

theorem ascending_dimensions : (s.dimensions w c).Pairwise fun a b => compare a b = .lt := by
  unfold dimensions
  split
  · exact List.pairwise_singleton _ _
  · exact ascending_keys w.dimensions

/-- The candidates are found in the order of the search. -/
theorem ranks_candidates (hw : w.Consistent) (hp : w.PlayersTyped) :
    (s.candidates w c q).Pairwise (w.Ranks s.searchOrder) := by
  refine List.pairwise_flatMap.2 ⟨fun _ _ => ranks_candidatesIn hw hp, ?_⟩
  refine ascending_dimensions.imp fun hlt id hid id' hid' => ?_
  obtain ⟨e, he, rfl, -⟩ := mem_candidatesIn.1 hid
  obtain ⟨e', he', rfl, -⟩ := mem_candidatesIn.1 hid'
  exact ⟨e, e', (hw.entity?_eq id).trans he, (hw.entity?_eq id').trans he',
    searchOrder_eq_lt_iff.2 (.inl hlt)⟩

/-! ## The listing -/

theorem ranks_byDistance {ids : List EntityId} (h : ids.Pairwise (w.Ranks s.searchOrder))
    (hids : ∀ id ∈ ids, ∃ e, w.entity? id = some e) :
    (byDistance w centre ids).Pairwise (w.Ranks (s.listingOrder centre)) := by
  refine (pairwise_mergeSort_key (remoteness w centre) h).imp_of_mem fun ha hb hab => ?_
  obtain ⟨e, he⟩ := hids _ (List.mem_mergeSort.1 ha)
  obtain ⟨e', he'⟩ := hids _ (List.mem_mergeSort.1 hb)
  rw [remoteness_of_entity? he, remoteness_of_entity? he'] at hab
  refine ⟨e, e', he, he', listingOrder_eq_lt_iff.2 (hab.imp_right fun ⟨heq, hr⟩ => ⟨heq, ?_⟩)⟩
  obtain ⟨f, f', hf, hf', hlt⟩ := hr
  rw [he] at hf
  rw [he'] at hf'
  cases hf
  cases hf'
  exact hlt

theorem pairwise_narrowed (hs : s.Standard) {R : EntityId → EntityId → Prop}
    {ids : List EntityId} (h : ids.Pairwise R) : (s.narrowed c ids).Pairwise R := by
  unfold narrowed
  rw [narrowing_eq _ hs.type]
  by_cases ht : s.type.name = "s"
  · simp only [if_pos ht, executorOnly]
    cases Option.filter ids.contains c.executor <;> simp
  · simpa only [if_neg ht] using h

/-- The entities that the selector is after, in the order of its listing. -/
structure Lists (s : Selector) (w : World) (c : Context) (centre : Vec3)
    (all : List EntityId) : Prop where
  mem_iff : ∀ id, id ∈ all ↔ ∃ e, w.entity? id = some e ∧ s.Selects w c centre id e
  ranks : all.Pairwise (w.Ranks (s.listingOrder centre))

/-- A selector ordered by distance draws nothing and resolves to its listing, cut off. -/
theorem exists_lists (hw : w.Consistent) (hp : w.PlayersTyped) (hs : s.Standard)
    (hnear : s.type.order = .nearest) (hc : s.centre w c = .ok centre) :
    ∃ all, s.Lists w c centre all ∧
      ∀ random, s.resolve w c random = .ok (s.limited all) random := by
  have hord (random : Random) : s.ordered w centre (s.admitted w c centre) random =
      .ok (byDistance w centre (s.admitted w c centre)) random := by
    unfold ordered
    rw [hnear]
  have hfound : ∀ id ∈ s.admitted w c centre, ∃ e, w.entity? id = some e := by
    intro id hid
    obtain ⟨e, he, -⟩ := mem_candidates.1 (List.mem_of_mem_filter hid)
    exact ⟨e, (hw.entity?_eq id).trans he⟩
  have hranks : (s.admitted w c centre).Pairwise (w.Ranks s.searchOrder) :=
    (ranks_candidates hw hp).filter _
  refine ⟨s.narrowed c (byDistance w centre (s.admitted w c centre)), ⟨fun id => ?_, ?_⟩,
    fun random => resolve_of_centre hs.modes.namesModes hc (hord random)⟩
  · exact mem_narrowed_admitted hw hs (List.mergeSort_perm _ _)
  · exact pairwise_narrowed hs (ranks_byDistance hranks hfound)

/-! ## Counts -/

/-- What the value of `c`, or else the limit of the type, leaves of a listing. A negative
count counts from the end. -/
inductive Leaves (all : List EntityId) : Option ArgValue → Option Nat → List EntityId → Prop where
  | first {n : Int64} {limit : Option Nat} : 0 ≤ n →
      Leaves all (some (.int n)) limit (all.take n.toInt.toNat)
  | last {n : Int64} {limit : Option Nat} : n < 0 →
      Leaves all (some (.int n)) limit (all.reverse.take n.toInt.natAbs)
  | limited {limit : Nat} : Leaves all none (some limit) (all.take limit)
  | whole : Leaves all none none all

/-- A count is an integer. -/
theorem first?_count {text : String} (h : parse .standard text = .ok s) :
    s.first? "c" = none ∨ ∃ n, s.first? "c" = some (.int n) := by
  cases hc : s.first? "c" with
  | none => exact .inl rfl
  | some value =>
    refine .inr ?_
    obtain ⟨arg, harg, rfl⟩ := Option.map_eq_some_iff.1 hc
    have hmem : arg ∈ s.get "c" := List.mem_of_mem_head? harg
    obtain ⟨name⟩ | ⟨_, _, _, hbuild⟩ := accepted_of_parse h
    · rw [get_ofName, if_neg (by decide)] at hmem
      cases hmem
    · obtain ⟨spec, hspec, -, hmatches, -⟩ := check_eq_ok_iff.1 (check_of_build hbuild hmem)
      rw [SelectorRegistry.argument?_count] at hspec
      cases hspec
      cases hv : arg.value with
      | int n => exact ⟨n, rfl⟩
      | _ => simp [hv, Shape.matchesValue] at hmatches

theorem count?_eq_some_iff {n : Int64} : s.count? = some n ↔ s.first? "c" = some (.int n) :=
  int?_eq_some_iff.trans first?_eq_some_iff.symm

theorem limited_of_nonneg {n : Int64} (h : s.first? "c" = some (.int n)) (hn : 0 ≤ n)
    (all : List EntityId) : s.limited all = all.take n.toInt.toNat := by
  have hneg : ¬ n < 0 := Int64.not_lt.2 hn
  have habs : n.toInt.natAbs = n.toInt.toNat := by
    have := Int64.le_iff_toInt_le.1 hn
    simp only [Int64.toInt_zero] at this
    omega
  unfold limited limit?
  simp [count?_eq_some_iff.2 h, hneg, habs]

theorem limited_of_neg {n : Int64} (h : s.first? "c" = some (.int n)) (hn : n < 0)
    (all : List EntityId) : s.limited all = all.reverse.take n.toInt.natAbs := by
  unfold limited limit?
  simp [count?_eq_some_iff.2 h, hn]

theorem leaves_limited {text : String} (h : parse .standard text = .ok s)
    (all : List EntityId) : Leaves all (s.first? "c") s.type.limit (s.limited all) := by
  rcases first?_count h with hc | ⟨n, hc⟩
  · have hnone : s.count? = none := by
      rw [count?, hc]
      rfl
    unfold limited limit?
    rw [hc, hnone]
    cases s.type.limit with
    | none => exact .whole
    | some limit => exact .limited
  · rw [hc]
    by_cases hn : n < 0
    · rw [limited_of_neg hc hn]
      exact .last hn
    · have hpos : 0 ≤ n := Int64.not_lt.1 hn
      rw [limited_of_nonneg hc hpos]
      exact .first hpos

theorem limited_prefix (s : Selector) (all : List EntityId) :
    s.limited all <+: if s.count?.any (· < 0) then all.reverse else all := by
  unfold limited
  cases s.limit? with
  | none => exact List.prefix_rfl
  | some limit => exact List.take_prefix limit _

/-- What is kept of a list stands before what is cut off. -/
theorem rel_of_kept {l ids : List EntityId} {R : EntityId → EntityId → Prop}
    (hl : l.Pairwise R) (h : ids <+: l) {id id' : EntityId} (hid : id ∈ ids) (hid' : id' ∈ l)
    (hcut : id' ∉ ids) : R id id' := by
  obtain ⟨rest, rfl⟩ := h
  have hrest : id' ∈ rest := (List.mem_append.1 hid').resolve_left hcut
  exact (List.pairwise_append.1 hl).2.2 id hid id' hrest

/-- Nothing that is cut off is nearer than what is kept, or farther if the count is negative. -/
theorem Lists.not_nearer {all : List EntityId} (h : s.Lists w c centre all) {id id' : EntityId}
    (hid : id ∈ s.limited all) (hid' : id' ∈ all) (hcut : id' ∉ s.limited all)
    (he : w.entity? id = some e) (he' : w.entity? id' = some e') :
    if s.count?.any (· < 0) then ¬ centre.Nearer e.location e'.location
    else ¬ centre.Nearer e'.location e.location := by
  have hprefix := s.limited_prefix all
  by_cases hn : s.count?.any (· < 0)
  · rw [if_pos hn] at hprefix ⊢
    have hranks := rel_of_kept (List.pairwise_reverse.2 h.ranks) hprefix hid
      (List.mem_reverse.2 hid') hcut
    exact not_nearer_of_ranks hranks he' he
  · rw [if_neg hn] at hprefix ⊢
    exact not_nearer_of_ranks (rel_of_kept h.ranks hprefix hid hid' hcut) he he'

/-! ## Selectors that differ by the count -/

/-- All but the count is the same. -/
structure SameButCount (s s' : Selector) : Prop where
  type : s'.type = s.type
  arguments : ∀ name, name ≠ "c" → s'.arguments.get? name = s.arguments.get? name

namespace SameButCount

variable {s' : Selector} {name : String}

theorem symm (h : s.SameButCount s') : s'.SameButCount s :=
  ⟨h.type.symm, fun name hname => (h.arguments name hname).symm⟩

theorem get (h : s.SameButCount s') (hname : name ≠ "c") : s'.get name = s.get name := by
  rw [Selector.get, Selector.get, h.arguments name hname]

theorem has (h : s.SameButCount s') (hname : name ≠ "c") : s'.has name = s.has name := by
  rw [Selector.has, Selector.has, OrderedMap.contains, OrderedMap.contains,
    h.arguments name hname]

theorem first? (h : s.SameButCount s') (hname : name ≠ "c") : s'.first? name = s.first? name := by
  rw [Selector.first?, Selector.first?, h.get hname]

theorem first_iff (h : s.SameButCount s') (hname : name ≠ "c") {value : ArgValue} :
    s'.First name value ↔ s.First name value := by
  rw [First, First, h.get hname]

theorem given_iff (h : s.SameButCount s') (hname : name ≠ "c") : s'.Given name ↔ s.Given name := by
  rw [Given, Given, h.get hname]

theorem standard (h : s.SameButCount s') (hs : s.Standard) : s'.Standard where
  grouped name hname := by
    have hc : name ≠ "c" := by rintro rfl; exact absurd hname (by decide)
    rw [h.has hc, h.given_iff hc]
    exact hs.grouped name hname
  modes := by
    unfold ModesNamed
    rw [h.get (by decide)]
    exact hs.modes
  scores entries hfirst := hs.scores entries ((h.first_iff (by decide)).1 hfirst)
  type := by
    rw [h.type]
    exact hs.type

theorem centre_eq (h : s.SameButCount s') : s'.centre w c = s.centre w c := by
  have hcoord (axis : String) (haxis : axis ≠ "c") : s'.coordinate axis = s.coordinate axis := by
    rw [coordinate, coordinate, h.first? haxis]
  unfold centre
  rw [hcoord "x" (by decide), hcoord "y" (by decide), hcoord "z" (by decide)]

theorem spelled_eq (h : s.SameButCount s') : s'.spelled centre = s.spelled centre := by
  have hnumber {name : String} (hname : name ≠ "c") : s'.number? name = s.number? name := by
    rw [number?, number?, h.first? hname]
  have hint {name : String} (hname : name ≠ "c") : s'.int? name = s.int? name := by
    rw [int?, int?, h.first? hname]
  have hpositive {name : String} (hname : name ≠ "c") : s'.positive? name = s.positive? name := by
    rw [positive?, positive?, h.get hname]
  have hwanted {name : String} (hname : name ≠ "c") : s'.wanted? name = s.wanted? name := by
    rw [wanted?, wanted?, hpositive hname]
  have hinverted {name : String} (hname : name ≠ "c") : s'.inverted name = s.inverted name := by
    rw [inverted, inverted, h.get hname]
  have hscores : s'.mapEntries? "scores" = s.mapEntries? "scores" := by
    rw [mapEntries?, mapEntries?, h.first? (by decide)]
  have hextent : ["dx", "dy", "dz"].any s'.has = ["dx", "dy", "dz"].any s.has := by
    simp (disch := decide) only [List.any_cons, List.any_nil, h.has]
  have hvolume : s'.volume? = s.volume? := by
    rw [volume?, volume?, hextent, hnumber (by decide), hnumber (by decide), hnumber (by decide)]
  simp (disch := decide) only [spelled, queryWithoutMode, unwanted, scoreFilters, hnumber, hint,
    hpositive, hwanted, hinverted, hscores, hvolume]

theorem selects (h : s.SameButCount s') (hst : s.Standard) (hs : s.Selects w c centre a e) :
    s'.Selects w c centre a e := by
  have hmeets : s'.Meets w.scoreboard centre a e := by
    rw [← admits_spelled_iff (h.standard hst).toSpelling, h.spelled_eq,
      admits_spelled_iff hst.toSpelling]
    exact hs.meets
  have hspatial : (∃ name ∈ ["dx", "dy", "dz", "r", "rm"], s'.Given name) ↔
      ∃ name ∈ ["dx", "dy", "dz", "r", "rm"], s.Given name := by
    refine exists_congr fun name => and_congr_right fun hname => h.given_iff ?_
    rintro rfl
    exact absurd hname (by decide)
  refine ⟨?_, ?_, hmeets, ?_, fun entries hfirst => ?_, ?_⟩
  · simp only [hspatial]
    exact hs.placed
  · rw [h.type]
    exact hs.present
  · rw [playersOnly, h.type, h.given_iff (by decide)]
    exact hs.typed
  · exact hs.permitted entries ((h.first_iff (by decide)).1 hfirst)
  · rw [h.type]
    exact hs.executor

/-- The listing does not depend on the count. -/
theorem lists {all : List EntityId} (h : s.SameButCount s') (hst : s.Standard)
    (hl : s.Lists w c centre all) : s'.Lists w c centre all where
  mem_iff id := (hl.mem_iff id).trans (exists_congr fun _ => and_congr_right fun _ =>
    ⟨h.selects hst, h.symm.selects (h.standard hst)⟩)
  ranks := by
    unfold listingOrder searchOrder isLate
    rw [h.type]
    exact hl.ranks

end SameButCount

/-- There is one listing only. -/
theorem Lists.unique {all all' : List EntityId} (h : s.Lists w c centre all)
    (h' : s.Lists w c centre all') : all = all' :=
  h.ranks.eq_of_mem_iff h'.ranks fun id => (h.mem_iff id).trans (h'.mem_iff id).symm

/-- A selector ordered by distance draws nothing. From what it is after, listed by distance,
then by dimension, then with the players last unless the type is for the living only, then by
id, it takes the first `n` for a count of `n`, the last `n` from the end for `-n`, and as many
as the type leaves without a count. So a greater count continues the result of a smaller one,
and nothing strictly nearer is left out, or farther for a negative count. -/
theorem resolve_nearest (hw : w.Consistent) (hp : w.PlayersTyped) {text : String}
    (hs : parse .standard text = .ok s) (hnear : s.type.order = .nearest) {here : Vec3}
    (hc : c.point w = .ok here) :
    ∃ centre all, s.Centred here centre ∧ s.Lists w c centre all ∧
      ∀ random, ∃ ids, s.resolve w c random = .ok ids random ∧
        Leaves all (s.first? "c") s.type.limit ids ∧
        (∀ id ∈ ids, ∀ id' ∈ all, id' ∉ ids → ∀ e e', w.entity? id = some e →
          w.entity? id' = some e' → if s.count?.any (· < 0)
            then ¬ centre.Nearer e.location e'.location
            else ¬ centre.Nearer e'.location e.location) ∧
        ∀ s' m n, s.SameButCount s' → s.first? "c" = some (.int m) →
          s'.first? "c" = some (.int n) → 0 ≤ m → m ≤ n →
          ∃ ids', s'.resolve w c random = .ok ids' random ∧ ids <+: ids' := by
  have hst := standard_of_parse hs
  obtain ⟨centre, hcentre⟩ := exists_centre hc
  obtain ⟨all, hall, hres⟩ := exists_lists hw hp hst hnear hcentre
  refine ⟨centre, all, (centred_iff hc).2 hcentre, hall, fun random => ⟨s.limited all, hres random,
    leaves_limited hs all, fun id hid id' hid' hcut e e' => hall.not_nearer hid hid' hcut, ?_⟩⟩
  intro s' m n hsame hm hn hpos hle
  have hnear' : s'.type.order = .nearest := by
    rw [hsame.type]
    exact hnear
  have hcentre' : s'.centre w c = .ok centre := hsame.centre_eq.trans hcentre
  obtain ⟨all', hall', hres'⟩ :=
    exists_lists hw hp (hsame.standard hst) hnear' hcentre'
  obtain rfl : all = all' := (hsame.lists hst hall).unique hall'
  refine ⟨s'.limited all, hres' random, ?_⟩
  rw [limited_of_nonneg hm hpos, limited_of_nonneg hn (Int64.le_trans hpos hle)]
  refine List.take_prefix_take_left ?_
  have := Int64.le_iff_toInt_le.1 hle
  omega

end

/-- Four cows. The nearest is neither the first nor the last that the search comes upon; of two
that are equally far, the one in the nether is listed before the one in the overworld. -/
theorem resolve_nearest_cows :
    let w := (World.perform [.spawn { Entity.ofType "cow" with location := ⟨5, 0, 0⟩ },
      .spawn { Entity.ofType "cow" with location := ⟨3, 0, 0⟩ },
      .spawn { Entity.ofType "cow" with location := ⟨2, 0, 0⟩ },
      .spawn { Entity.ofType "cow" with location := ⟨0, 0, -3⟩, dimension := .nether }]).2
    let c := Context.atPoint ⟨0, .server⟩ .overworld .zero
    ∃ s, parse .standard "@e[type=cow,c=1]" = .ok s ∧ s.type.order = .nearest ∧
      let s' : Selector := { s with arguments := s.arguments.insert "c" [⟨false, .int 2⟩] }
      ∃ centre, s.Centred .zero centre ∧
        s.Lists w c centre [⟨2, 1⟩, ⟨3, 1⟩, ⟨1, 1⟩, ⟨0, 1⟩] ∧
        s.resolve w c (.ofSeed 0) = .ok [⟨2, 1⟩] (.ofSeed 0) ∧
        ∃ ids, s'.resolve w c (.ofSeed 0) = .ok ids (.ofSeed 0) ∧ [⟨2, 1⟩] <+: ids := by
  intro w c
  have hw : w.Consistent := World.consistent_perform _
  have hp : w.PlayersTyped := by decide +kernel
  have hc : c.point w = .ok .zero := rfl
  have hall : (parse .standard "@e[type=cow,c=1]").toOption.any fun s =>
      s.type.order = .nearest ∧ s.count? = some 1 ∧
        ((s.centre w c).toOption.any fun p => p.x = 0 ∧ p.y = 0 ∧ p.z = 0) ∧
        s.narrowed c (s.admitted w c .zero) = [⟨3, 1⟩, ⟨0, 1⟩, ⟨1, 1⟩, ⟨2, 1⟩] ∧
        [(⟨2, 1⟩ : EntityId), ⟨3, 1⟩, ⟨1, 1⟩, ⟨0, 1⟩].Pairwise
          (w.Ranks (s.listingOrder .zero)) := by
    decide +kernel
  obtain ⟨s, hs, hargs⟩ := exists_ok_of_any hall
  obtain ⟨hnear, hcount, hzero, hadmitted, hranks⟩ := of_decide_eq_true hargs
  obtain ⟨centre, all, hcentre, hlists, hres⟩ := resolve_nearest hw hp hs hnear hc
  obtain rfl : centre = .zero := by
    rw [(centred_iff hc).1 hcentre] at hzero
    obtain ⟨x, y, z⟩ := centre
    obtain ⟨rfl, rfl, rfl⟩ : x = 0 ∧ y = 0 ∧ z = 0 := of_decide_eq_true hzero
    rfl
  obtain rfl : all = [⟨2, 1⟩, ⟨3, 1⟩, ⟨1, 1⟩, ⟨0, 1⟩] := by
    refine hlists.ranks.eq_of_mem_iff hranks fun id => ?_
    rw [hlists.mem_iff, ← mem_narrowed_admitted hw (standard_of_parse hs) (.refl _), hadmitted]
    exact List.Perm.mem_iff (by decide)
  have hfirst : s.first? "c" = some (.int 1) := count?_eq_some_iff.1 hcount
  let s' : Selector := { s with arguments := s.arguments.insert "c" [⟨false, .int 2⟩] }
  have hsame : s.SameButCount s' :=
    ⟨rfl, fun name hname => OrderedMap.get?_insert_of_ne _ _ hname⟩
  have hfirst' : s'.first? "c" = some (.int 2) := by
    rw [first?, get, OrderedMap.get?_insert_self]
    rfl
  obtain ⟨ids, hids, hleaves, -, hmore⟩ := hres (.ofSeed 0)
  have hmore := hmore s' 1 2 hsame hfirst hfirst' (by decide) (by decide)
  rw [hfirst] at hleaves
  cases hleaves with
  | first => exact ⟨s, hs, hnear, .zero, hcentre, hlists, hids, hmore⟩
  | last hneg => exact absurd hneg (by decide)

end Selector

end CommandChain
