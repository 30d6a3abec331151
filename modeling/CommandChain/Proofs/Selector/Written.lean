import CommandChain.Proofs.Selector.Candidates

/-!
# What the arguments of a selector ask

`Meets` is the judgment that an entity is as the written arguments ask. Its conditions are
put on the occurrences: a text argument asks for the first value without `!` and against
every value with it, a bound is the first value, and every entry of `scores` asks for a
score of its own.

A selector spells these conditions as a query (`query_eq_spelled`), and the query admits
the entities that meet them (`admits_spelled_iff`).
-/

namespace CommandChain

/-- The values that name a game mode. -/
def GameMode.Names (mode : GameMode) (value : ArgValue) : Prop :=
  match mode with
  | survival => value = .text "survival" ∨ value = .text "s" ∨ value = .int 0
  | creative => value = .text "creative" ∨ value = .text "c" ∨ value = .int 1
  | adventure => value = .text "adventure" ∨ value = .text "a" ∨ value = .int 2
  | spectator => value = .text "spectator" ∨ value = .int 6

/-- A score is in a range, or is the one number. -/
def ArgValue.Covers : ArgValue → Int64 → Prop
  | int n, score => score = n
  | range r, score =>
    (∀ min, r.min = some min → min ≤ score) ∧ ∀ max, r.max = some max → score ≤ max
  | _, _ => False

namespace Selector

/-! ## Written occurrences -/

section

variable (s : Selector) (name : String)

/-- The argument is given. -/
abbrev Given : Prop := s.get name ≠ []

/-- The first occurrence has the value. -/
def First (value : ArgValue) : Prop := ∃ inverted rest, s.get name = ⟨inverted, value⟩ :: rest

/-- The first occurrence without `!` has the value. -/
def FirstPlain (value : ArgValue) : Prop :=
  ∃ before rest, s.get name = before ++ ⟨false, value⟩ :: rest ∧ ∀ a ∈ before, a.inverted

/-- An occurrence with `!` has the value. -/
def Excludes (value : ArgValue) : Prop := ⟨true, value⟩ ∈ s.get name

/-- The first occurrence is the number. -/
def Sets (x : Float) : Prop :=
  (∃ n, s.First name (.int n) ∧ x = Float.ofInt n.toInt) ∨ s.First name (.float x)

/-- The number that is set, or zero if there is none. -/
def Side (x : Float) : Prop := s.Sets name x ∨ (∀ y, ¬ s.Sets name y) ∧ x = 0

/-- The coordinate of the centre: the number that is set, as far from here as `~` says, or
here. -/
def Centres (here x : Float) : Prop :=
  s.Sets name x ∨ (∃ offset, s.First name (.relative offset) ∧ x = here + offset) ∨
    (∀ y, ¬ s.Sets name y) ∧ (∀ offset, ¬ s.First name (.relative offset)) ∧ x = here + 0

/-- The first text without `!` holds, and no text with it. -/
def Texts (holds : String → Prop) : Prop :=
  (∀ text, s.FirstPlain name (.text text) → holds text) ∧
    ∀ text, s.Excludes name (.text text) → ¬ holds text

end

/-- The point that distances and volumes are counted from. -/
structure Centred (s : Selector) (here centre : Vec3) : Prop where
  x : s.Centres "x" here.x centre.x
  y : s.Centres "y" here.y centre.y
  z : s.Centres "z" here.z centre.z

/-- No bound of the two arguments is passed. -/
def Within (s : Selector) (low high : String) (v : Float) : Prop :=
  (∀ m, s.Sets low m → ¬ v < m) ∧ ∀ m, s.Sets high m → ¬ m < v

/-- `v` lies in the blocks from `start` to `start + extent`. -/
def InBlocks (start extent v : Float) : Prop :=
  Number.floor (Number.lesser start (start + extent)) ≤ v ∧
    v < Number.floor (Number.greater start (start + extent)) + 1

/-- The point is in the box from the centre that `dx`, `dy` and `dz` give. -/
def InBox (s : Selector) (centre v : Vec3) : Prop :=
  ∃ dx dy dz, (s.Side "dx" dx ∧ s.Side "dy" dy ∧ s.Side "dz" dz) ∧
    InBlocks centre.x dx v.x ∧ InBlocks centre.y dy v.y ∧ InBlocks centre.z dz v.z

/-- The entity is as the arguments ask. -/
structure Meets (s : Selector) (board : Scoreboard) (centre : Vec3) (id : EntityId)
    (e : Entity) : Prop where
  distance : s.Within "rm" "r" (e.location.distance centre)
  volume : (∃ name ∈ ["dx", "dy", "dz"], s.Given name) → s.InBox centre e.location
  pitch : s.Within "rxm" "rx" e.rotation.pitch
  yaw : s.Within "rym" "ry" e.rotation.yaw
  type : s.Texts "type" fun text =>
    e.entityType = if ':' ∈ text.toList then text else "minecraft:" ++ text
  name : s.Texts "name" fun text => e.name = some text
  tag : s.Texts "tag" fun text => e.tags.has text
  family : s.Texts "family" fun text => e.families.has text
  mode : ∀ value, s.FirstPlain "m" value → ∃ p, e.player = some p ∧ p.mode.Names value
  otherMode : ∀ value, s.Excludes "m" value → ∃ p, e.player = some p ∧ ¬ p.mode.Names value
  maxLevel : ∀ l, s.First "l" (.int l) → ∃ p, e.player = some p ∧ p.level ≤ l
  minLevel : ∀ lm, s.First "lm" (.int lm) → ∃ p, e.player = some p ∧ lm ≤ p.level
  /-- Every entry asks for a score, in the range or, with `!`, outside it. -/
  scores : ∀ entries, s.First "scores" (.map entries) → ∀ entry ∈ entries,
    ∃ score, board.get? entry.key (.entity id) = some score ∧
      (entry.value.Covers score ↔ ¬ entry.inverted)

/-! ## The occurrences as they are read -/

section

variable {s : Selector} {name : String} {value : ArgValue}

theorem first?_eq_some_iff : s.first? name = some value ↔ s.First name value := by
  unfold first? First
  cases s.get name with
  | nil => simp
  | cons a rest =>
    obtain ⟨inverted, v⟩ := a
    simp

theorem positive?_eq_some_iff : s.positive? name = some value ↔ s.FirstPlain name value := by
  simp only [positive?, Option.map_eq_some_iff, List.find?_eq_some_iff_append, FirstPlain]
  constructor
  · rintro ⟨⟨inverted, v⟩, ⟨hplain, before, rest, hget, hbefore⟩, rfl⟩
    cases inverted with
    | true => cases hplain
    | false => exact ⟨before, rest, hget, fun a ha => by simpa using hbefore a ha⟩
  · rintro ⟨before, rest, hget, hbefore⟩
    exact ⟨⟨false, value⟩, ⟨rfl, before, rest, hget, fun a ha => by simpa using hbefore a ha⟩, rfl⟩

theorem mem_inverted_iff : value ∈ s.inverted name ↔ s.Excludes name value := by
  simp only [inverted, List.mem_map, List.mem_filter, Excludes]
  constructor
  · rintro ⟨⟨inverted, v⟩, ⟨ha, rfl⟩, rfl⟩
    exact ha
  · exact fun h => ⟨⟨true, value⟩, ⟨h, rfl⟩, rfl⟩

theorem int?_eq_some_iff {n : Int64} : s.int? name = some n ↔ s.First name (.int n) := by
  have hint (v : ArgValue) : v.int? = some n ↔ v = .int n := by cases v <;> simp [ArgValue.int?]
  simp only [int?, Option.bind_eq_some_iff, hint, first?_eq_some_iff, exists_eq_right]

theorem number?_eq_some_iff {x : Float} : s.number? name = some x ↔ s.Sets name x := by
  have hnumber (v : ArgValue) : v.number? = some x ↔
      (∃ n, v = .int n ∧ x = Float.ofInt n.toInt) ∨ v = .float x := by
    cases v <;> simp [ArgValue.number?, eq_comm]
  simp only [number?, Option.bind_eq_some_iff, hnumber, first?_eq_some_iff, Sets]
  constructor
  · rintro ⟨v, hv, ⟨n, rfl, hx⟩ | rfl⟩
    · exact .inl ⟨n, hv, hx⟩
    · exact .inr hv
  · rintro (⟨n, hv, hx⟩ | hv)
    · exact ⟨_, hv, .inl ⟨n, rfl, hx⟩⟩
    · exact ⟨_, hv, .inr rfl⟩

theorem text?_eq_some_iff {text : String} : value.text? = some text ↔ value = .text text := by
  cases value <;> simp [ArgValue.text?]

theorem wanted?_eq_some_iff {text : String} :
    s.wanted? name = some text ↔ s.FirstPlain name (.text text) := by
  simp only [wanted?, Option.bind_eq_some_iff, text?_eq_some_iff, positive?_eq_some_iff,
    exists_eq_right]

theorem mem_unwanted_iff {text : String} :
    text ∈ s.unwanted name ↔ s.Excludes name (.text text) := by
  simp only [unwanted, List.mem_filterMap, text?_eq_some_iff, mem_inverted_iff, exists_eq_right]

theorem side_iff {x : Float} : s.Side name x ↔ (s.number? name).getD 0 = x := by
  simp only [Side, ← number?_eq_some_iff]
  cases s.number? name <;> simp [eq_comm]

theorem texts_iff {holds : String → Prop} : s.Texts name holds ↔
    (∀ text, s.wanted? name = some text → holds text) ∧
      ∀ text ∈ s.unwanted name, ¬ holds text := by
  simp only [Texts, wanted?_eq_some_iff, mem_unwanted_iff]

end

/-! ## The query that the arguments spell -/

/-- The query, with the values of `m` that name game modes. -/
def spelled (s : Selector) (centre : Vec3) : EntityQuery :=
  { s.queryWithoutMode centre with
    gameMode := (s.positive? "m").bind fun value => GameMode.parse (toString value)
    excludeGameModes := (s.inverted "m").filterMap fun value => GameMode.parse (toString value) }

/-- The values of `m` name game modes. -/
def NamesModes (s : Selector) : Prop :=
  ∀ a ∈ s.get "m", (GameMode.parse (toString a.value)).isSome

theorem gameMode_of_isSome {value : ArgValue} (h : (GameMode.parse (toString value)).isSome) :
    ∃ mode, GameMode.parse (toString value) = some mode ∧ gameMode value = .ok mode := by
  obtain ⟨mode, hm⟩ := Option.isSome_iff_exists.1 h
  exact ⟨mode, hm, by rw [gameMode, hm]⟩

theorem mapM_gameMode {values : List ArgValue}
    (h : ∀ v ∈ values, (GameMode.parse (toString v)).isSome) :
    values.mapM gameMode = .ok (values.filterMap fun v => GameMode.parse (toString v)) := by
  induction values with
  | nil => rfl
  | cons v values ih =>
    obtain ⟨mode, hp, hm⟩ := gameMode_of_isSome (h v List.mem_cons_self)
    rw [List.mapM_cons, hm, List.filterMap_cons, hp, ih fun v hv => h v (.tail _ hv)]
    rfl

theorem query_eq_spelled {s : Selector} (h : s.NamesModes) (centre : Vec3) :
    s.query centre = .ok (s.spelled centre) := by
  have hinverted : (s.inverted "m").mapM gameMode =
      .ok ((s.inverted "m").filterMap fun v => GameMode.parse (toString v)) := by
    refine mapM_gameMode fun v hv => ?_
    obtain ⟨a, ha, rfl⟩ := List.mem_map.1 hv
    exact h a (List.mem_of_mem_filter ha)
  have hpositive : (s.positive? "m").mapM gameMode =
      .ok ((s.positive? "m").bind fun v => GameMode.parse (toString v)) := by
    cases hp : s.positive? "m" with
    | none => rfl
    | some v =>
      obtain ⟨a, ha, rfl⟩ := Option.map_eq_some_iff.1 hp
      obtain ⟨mode, hmode, hm⟩ := gameMode_of_isSome (h a (List.mem_of_find?_eq_some ha))
      rw [Option.bind_some, hmode]
      exact congrArg (some <$> ·) hm
  unfold query
  rw [hpositive, hinverted]
  rfl

/-! ## What the query admits -/

section

variable {s : Selector} {name : String} {centre : Vec3} {e : Entity} {id : EntityId}
  {board : Scoreboard}

theorem between_iff {low high : String} {v : Float} :
    EntityQuery.between (s.number? low) (s.number? high) v ↔ s.Within low high v := by
  simp [EntityQuery.between, Option.any_eq_false, Within, number?_eq_some_iff]

theorem withinBlocks_iff {start extent v : Float} :
    EntityQuery.withinBlocks start extent v ↔ InBlocks start extent v := by
  simp [EntityQuery.withinBlocks, InBlocks]

/-- The arguments whose mere presence counts have occurrences. -/
def Grouped (s : Selector) : Prop :=
  ∀ name ∈ ["dx", "dy", "dz", "r", "rm", "type"], s.has name ↔ s.Given name

theorem any_has_iff (h : s.Grouped) {names : List String}
    (hnames : names ⊆ ["dx", "dy", "dz", "r", "rm", "type"]) :
    names.any s.has ↔ ∃ name ∈ names, s.Given name := by
  simp only [List.any_eq_true]
  exact exists_congr fun name => and_congr_right fun hname => h name (hnames hname)

theorem volume_iff (h : s.Grouped) : s.volume?.all (EntityQuery.inVolume centre · e.location) ↔
    ((∃ name ∈ ["dx", "dy", "dz"], s.Given name) → s.InBox centre e.location) := by
  rw [← any_has_iff h (by decide)]
  unfold volume?
  by_cases hgiven : ["dx", "dy", "dz"].any s.has
  · simp only [hgiven, if_true, Option.all_some, EntityQuery.inVolume, Bool.and_eq_true,
      withinBlocks_iff, InBox, side_iff, true_imp_iff, and_assoc]
    constructor
    · exact fun h => ⟨_, _, _, rfl, rfl, rfl, h⟩
    · rintro ⟨_, _, _, rfl, rfl, rfl, h⟩
      exact h
  · simp [hgiven]

theorem admitsPlacement_spelled_iff (h : s.Grouped) : (s.spelled centre).admitsPlacement e ↔
    s.Within "rm" "r" (e.location.distance centre) ∧
    ((∃ name ∈ ["dx", "dy", "dz"], s.Given name) → s.InBox centre e.location) ∧
    s.Within "rxm" "rx" e.rotation.pitch ∧ s.Within "rym" "ry" e.rotation.yaw := by
  simp only [← volume_iff h, ← between_iff, ← Bool.and_eq_true, ← Bool.and_assoc]
  rfl

theorem texts_iff_all {holds : String → Bool} :
    s.Texts name (holds ·) ↔ (s.wanted? name).all holds ∧ !(s.unwanted name).any holds := by
  simp [texts_iff, Option.all_eq_true, List.any_eq_false]

theorem qualify_eq (text : String) :
    qualify text = if ':' ∈ text.toList then text else "minecraft:" ++ text := by
  simp only [qualify, List.contains_iff_mem]

theorem admitsIdentity_spelled_iff : (s.spelled centre).admitsIdentity e ↔
    (s.Texts "type" fun text =>
      e.entityType = if ':' ∈ text.toList then text else "minecraft:" ++ text) ∧
    (s.Texts "name" fun text => e.name = some text) ∧
    (s.Texts "tag" fun text => e.tags.has text) ∧
    s.Texts "family" fun text => e.families.has text := by
  have htype (text : String) : (e.entityType = if ':' ∈ text.toList then text else
      "minecraft:" ++ text) ↔ (qualify (qualify text) == e.entityType) = true := by
    rw [qualify_qualify, ← qualify_eq, beq_iff_eq, eq_comm]
  have hname (text : String) : e.name = some text ↔ (e.name == some text) = true := beq_iff_eq.symm
  simp only [htype, hname, texts_iff_all]
  have htoList (wanted : Option String) (holds : String → Bool) :
      wanted.toList.all holds = wanted.all holds := by
    cases wanted <;> simp
  simp only [EntityQuery.admitsIdentity, spelled, queryWithoutMode, Bool.and_eq_true, and_assoc,
    Option.all_map, List.any_map, htoList]
  rfl

/-! ### Game modes and levels -/

/-- The values of `m` name game modes, by the words and numbers that the shape of `m` has. -/
def ModesNamed (s : Selector) : Prop := ∀ a ∈ s.get "m", ∃ mode : GameMode, mode.Names a.value

theorem parse_of_names {mode : GameMode} {value : ArgValue} (h : mode.Names value) :
    GameMode.parse (toString value) = some mode := by
  cases mode with
  | survival => rcases h with rfl | rfl | rfl <;> decide +kernel
  | creative => rcases h with rfl | rfl | rfl <;> decide +kernel
  | adventure => rcases h with rfl | rfl | rfl <;> decide +kernel
  | spectator => rcases h with rfl | rfl <;> decide +kernel

theorem ModesNamed.namesModes (h : s.ModesNamed) : s.NamesModes := by
  intro a ha
  obtain ⟨mode, hmode⟩ := h a ha
  rw [parse_of_names hmode]
  rfl

theorem FirstPlain.exists_names {value : ArgValue} (hm : s.ModesNamed)
    (h : s.FirstPlain "m" value) : ∃ mode : GameMode, mode.Names value := by
  obtain ⟨before, rest, hget, -⟩ := h
  exact hm ⟨false, value⟩ (hget ▸ List.mem_append_right _ List.mem_cons_self)

/-- Of two modes only one is named. -/
theorem names_iff {mode mode' : GameMode} {value : ArgValue} (h : mode.Names value) :
    mode'.Names value ↔ mode' = mode := by
  constructor
  · intro h'
    have hparse := parse_of_names h
    rw [parse_of_names h'] at hparse
    exact Option.some.inj hparse
  · rintro rfl
    exact h

theorem gameMode_spelled_iff (hm : s.ModesNamed) {mode : GameMode} :
    (s.spelled centre).gameMode = some mode ↔ ∃ v, s.FirstPlain "m" v ∧ mode.Names v := by
  simp only [spelled, Option.bind_eq_some_iff, positive?_eq_some_iff]
  refine exists_congr fun value => and_congr_right fun h => ?_
  obtain ⟨mode', hmode'⟩ := h.exists_names hm
  rw [parse_of_names hmode', names_iff hmode', Option.some_inj, eq_comm]

theorem mem_excludeGameModes_iff (hm : s.ModesNamed) {mode : GameMode} :
    mode ∈ (s.spelled centre).excludeGameModes ↔ ∃ v, s.Excludes "m" v ∧ mode.Names v := by
  simp only [spelled, List.mem_filterMap, mem_inverted_iff]
  refine exists_congr fun value => and_congr_right fun h => ?_
  obtain ⟨mode', hmode'⟩ := hm ⟨true, value⟩ h
  rw [parse_of_names hmode', names_iff hmode', Option.some_inj, eq_comm]

theorem asksForPlayer_spelled_iff (hm : s.ModesNamed) : (s.spelled centre).asksForPlayer ↔
    (∃ v, s.FirstPlain "m" v) ∨ (∃ v, s.Excludes "m" v) ∨
      (∃ lm, s.First "lm" (.int lm)) ∨ ∃ l, s.First "l" (.int l) := by
  have hmode : (s.spelled centre).gameMode.isSome ↔ ∃ v, s.FirstPlain "m" v := by
    simp only [Option.isSome_iff_exists, gameMode_spelled_iff hm]
    rw [exists_comm]
    exact exists_congr fun v => ⟨fun ⟨_, h, _⟩ => h, fun h =>
      (h.exists_names hm).imp fun _ hmode => ⟨h, hmode⟩⟩
  have hmodes : (s.spelled centre).excludeGameModes.isEmpty = false ↔ ∃ v, s.Excludes "m" v := by
    simp only [List.isEmpty_eq_false_iff_exists_mem, mem_excludeGameModes_iff hm]
    rw [exists_comm]
    exact exists_congr fun v => ⟨fun ⟨_, h, _⟩ => h, fun h =>
      (hm _ h).imp fun _ hmode => ⟨h, hmode⟩⟩
  have hmin : (s.spelled centre).minLevel.isSome ↔ ∃ lm, s.First "lm" (.int lm) :=
    Option.isSome_iff_exists.trans (exists_congr fun _ => int?_eq_some_iff)
  have hmax : (s.spelled centre).maxLevel.isSome ↔ ∃ l, s.First "l" (.int l) :=
    Option.isSome_iff_exists.trans (exists_congr fun _ => int?_eq_some_iff)
  rw [← hmode, ← hmodes, ← hmin, ← hmax]
  simp [EntityQuery.asksForPlayer, or_assoc]

theorem admitsPlayerState_spelled_iff (hm : s.ModesNamed) {p : PlayerState} :
    (s.spelled centre).admitsPlayerState p ↔
      (∀ v, s.FirstPlain "m" v → p.mode.Names v) ∧ (∀ v, s.Excludes "m" v → ¬ p.mode.Names v) ∧
      (∀ l, s.First "l" (.int l) → p.level ≤ l) ∧ ∀ lm, s.First "lm" (.int lm) → lm ≤ p.level := by
  have hmode : (∀ mode, (s.spelled centre).gameMode = some mode → p.mode = mode) ↔
      ∀ v, s.FirstPlain "m" v → p.mode.Names v := by
    simp only [gameMode_spelled_iff hm]
    constructor
    · intro h v hv
      obtain ⟨mode, hmode⟩ := hv.exists_names hm
      exact (names_iff hmode).2 (h mode ⟨v, hv, hmode⟩)
    · rintro h mode ⟨v, hv, hmode⟩
      exact (names_iff hmode).1 (h v hv)
  have hother : p.mode ∉ (s.spelled centre).excludeGameModes ↔
      ∀ v, s.Excludes "m" v → ¬ p.mode.Names v := by
    rw [mem_excludeGameModes_iff hm]
    simp only [not_exists, not_and]
  have hmax : (∀ l, (s.spelled centre).maxLevel = some l → p.level ≤ l) ↔
      ∀ l, s.First "l" (.int l) → p.level ≤ l :=
    forall_congr' fun _ => imp_congr_left int?_eq_some_iff
  have hmin : (∀ lm, (s.spelled centre).minLevel = some lm → lm ≤ p.level) ↔
      ∀ lm, s.First "lm" (.int lm) → lm ≤ p.level :=
    forall_congr' fun _ => imp_congr_left int?_eq_some_iff
  rw [← hmode, ← hother, ← hmax, ← hmin]
  simp only [EntityQuery.admitsPlayerState, Bool.and_eq_true, Option.all_eq_true, beq_iff_eq,
    Bool.not_eq_true', List.contains_eq_mem, decide_eq_false_iff_not, decide_eq_true_eq, and_assoc]
  exact and_congr_right fun _ => and_congr_right fun _ => and_comm

/-- An entity that is no player is admitted if nothing is asked of players. -/
theorem admitsPlayer_spelled_iff (hm : s.ModesNamed) : (s.spelled centre).admitsPlayer e ↔
    (∀ v, s.FirstPlain "m" v → ∃ p, e.player = some p ∧ p.mode.Names v) ∧
    (∀ v, s.Excludes "m" v → ∃ p, e.player = some p ∧ ¬ p.mode.Names v) ∧
    (∀ l, s.First "l" (.int l) → ∃ p, e.player = some p ∧ p.level ≤ l) ∧
    ∀ lm, s.First "lm" (.int lm) → ∃ p, e.player = some p ∧ lm ≤ p.level := by
  cases hp : e.player with
  | none =>
    rw [EntityQuery.admitsPlayer_of_no_player _ hp, Bool.not_eq_true', ← Bool.not_eq_true,
      asksForPlayer_spelled_iff hm]
    simp only [reduceCtorEq, false_and, exists_false, imp_false, not_or, not_exists]
    exact and_congr_right fun _ => and_congr_right fun _ => and_comm
  | some p =>
    rw [EntityQuery.admitsPlayer_of_player _ hp, admitsPlayerState_spelled_iff hm]
    simp only [Option.some.injEq, exists_eq_left']

/-! ### Scores -/

/-- The entries of `scores` have ranges. -/
def ScoresRanged (s : Selector) : Prop :=
  ∀ entries, s.First "scores" (.map entries) → ∀ entry ∈ entries, entry.value.range?.isSome

theorem covers_iff {value : ArgValue} {r : IntRange} (h : value.range? = some r) (score : Int64) :
    r.contains score ↔ value.Covers score := by
  cases value with
  | int n =>
    cases h
    simp only [IntRange.contains, IntRange.exactly, ArgValue.Covers, Option.all_some,
      Bool.and_eq_true, decide_eq_true_eq]
    exact ⟨fun h => Int64.le_antisymm h.2 h.1, fun h => h ▸ ⟨Int64.le_refl _, Int64.le_refl _⟩⟩
  | range r' =>
    cases h
    simp [IntRange.contains, ArgValue.Covers, Option.all_eq_true]
  | bool | float | relative | text | map | list => cases h

theorem any_contains_iff {entry : Entry ArgValue} {range : IntRange}
    (h : entry.value.range? = some range) (found : Option Int64) :
    found.any (range.contains · != entry.inverted) ↔
      ∃ score, found = some score ∧ (entry.value.Covers score ↔ ¬ entry.inverted) := by
  rw [Option.any_eq_true]
  refine exists_congr fun score => and_congr_right fun _ => ?_
  rw [← covers_iff h]
  cases range.contains score <;> cases entry.inverted <;> decide

theorem mapEntries?_eq_some_iff {entries : List (Entry ArgValue)} :
    s.mapEntries? name = some entries ↔ s.First name (.map entries) := by
  rw [← first?_eq_some_iff, mapEntries?]
  split
  · next entries' h => simp [h]
  · next h => exact iff_of_false nofun (h entries)

/-- Each entry is a condition of its own. -/
theorem admitsScores_spelled_iff (hr : s.ScoresRanged) :
    (s.spelled centre).admitsScores (.entity id) board ↔
      ∀ entries, s.First "scores" (.map entries) → ∀ entry ∈ entries,
        ∃ score, board.get? entry.key (.entity id) = some score ∧
          (entry.value.Covers score ↔ ¬ entry.inverted) := by
  have hscores : (s.spelled centre).scores =
    ((s.mapEntries? "scores").getD []).filterMap fun e =>
      e.value.range?.map fun range => ⟨e.key, range, e.inverted⟩ := rfl
  unfold ScoresRanged at hr
  simp only [EntityQuery.admitsScores, hscores, ← mapEntries?_eq_some_iff] at hr ⊢
  cases h : s.mapEntries? "scores" with
  | none => simp
  | some entries =>
    simp only [Option.getD_some, List.all_eq_true, List.mem_filterMap, Option.some.injEq,
      forall_eq']
    constructor
    · intro hall entry hentry
      obtain ⟨range, hrange⟩ := Option.isSome_iff_exists.1 (hr entries h entry hentry)
      refine (any_contains_iff hrange _).1 ?_
      exact hall ⟨entry.key, range, entry.inverted⟩ ⟨entry, hentry, by rw [hrange]; rfl⟩
    · rintro hall _ ⟨entry, hentry, hfilter⟩
      obtain ⟨range, hrange, rfl⟩ := Option.map_eq_some_iff.1 hfilter
      exact (any_contains_iff hrange _).2 (hall entry hentry)

/-! ### All conditions -/

/-- What makes the conditions that a selector spells the conditions that are written. -/
structure Spelling (s : Selector) : Prop where
  grouped : s.Grouped
  modes : s.ModesNamed
  scores : s.ScoresRanged

/-- The query admits the entities that meet what is written. -/
theorem admits_spelled_iff (hs : s.Spelling) :
    (s.spelled centre).admits (.entity id) e board ↔ s.Meets board centre id e := by
  simp only [EntityQuery.admits, Bool.and_eq_true, admitsPlacement_spelled_iff hs.grouped,
    admitsIdentity_spelled_iff, admitsPlayer_spelled_iff hs.modes,
    admitsScores_spelled_iff hs.scores]
  constructor
  · rintro ⟨⟨⟨⟨hdistance, hvolume, hpitch, hyaw⟩, htype, hname, htag, hfamily⟩,
      hmode, hother, hmax, hmin⟩, hscores⟩
    exact ⟨hdistance, hvolume, hpitch, hyaw, htype, hname, htag, hfamily, hmode, hother, hmax,
      hmin, hscores⟩
  · rintro ⟨hdistance, hvolume, hpitch, hyaw, htype, hname, htag, hfamily, hmode, hother, hmax,
      hmin, hscores⟩
    exact ⟨⟨⟨⟨hdistance, hvolume, hpitch, hyaw⟩, htype, hname, htag, hfamily⟩,
      hmode, hother, hmax, hmin⟩, hscores⟩

/-! ### Selectors that ask for tags only -/

theorem meets_iff_tag (h : ∀ name, name ≠ "tag" → name ≠ "c" → s.get name = []) :
    s.Meets board centre id e ↔ s.Texts "tag" fun text => e.tags.has text := by
  have hfirst {name : String} {value : ArgValue} (ht : name ≠ "tag") (hc : name ≠ "c") :
      ¬ s.First name value := by
    rintro ⟨_, _, hget⟩
    rw [h name ht hc] at hget
    cases hget
  have hplain {name : String} {value : ArgValue} (ht : name ≠ "tag") (hc : name ≠ "c") :
      ¬ s.FirstPlain name value := by
    rintro ⟨before, _, hget, -⟩
    rw [h name ht hc] at hget
    exact List.append_ne_nil_of_right_ne_nil before (List.cons_ne_nil _ _) hget.symm
  have hexcludes {name : String} {value : ArgValue} (ht : name ≠ "tag") (hc : name ≠ "c") :
      ¬ s.Excludes name value := by
    rw [Excludes, h name ht hc]
    exact List.not_mem_nil
  have hgiven : ¬ ∃ name ∈ ["dx", "dy", "dz"], s.Given name := by
    simp [Given, h]
  refine ⟨Meets.tag, fun htag => ⟨?_, fun hbox => absurd hbox hgiven, ?_, ?_, ?_, ?_, htag,
    ?_, ?_, ?_, ?_, ?_, ?_⟩⟩
  all_goals simp (disch := decide) [Within, Sets, Texts, hfirst, hplain, hexcludes]

/-- Without arguments every entity is as it should be. -/
theorem meets_bare (type : SelectorType) : Meets ⟨type, ∅⟩ board centre id e := by
  refine (meets_iff_tag fun _ _ _ => rfl).2 ⟨?_, nofun⟩
  rintro text ⟨before, rest, hget, -⟩
  exact absurd hget.symm (List.append_ne_nil_of_right_ne_nil before (List.cons_ne_nil _ _))

end

end Selector

end CommandChain
