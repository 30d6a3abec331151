import CommandChain.Proofs.Selector.Resolution
import CommandChain.Proofs.Selector.RoundTrip
import CommandChain.Proofs.World.Submission

/-!
# Finding a marked entity

The text that a rendered command finds an entity by, `Renderer.markerSelector`, is
read as the selector `seeker` (`parse_markerSelector`), which selects by tag in
every dimension (`selects_seeker_iff`): a player, dead or alive, if the entity is
one, and a living entity if it is not. So it picks the marked entity and nothing
else, unless the world has the marker elsewhere (`markerSelector_picks`).
-/

namespace CommandChain

namespace Selector

open SelectorRegistry

/-! ## The selector -/

/-- The type that a marked entity is sought with: `@a` finds players that are dead, too. -/
def seekerType (isPlayer : Bool) : SelectorType :=
  if isPlayer then (SelectorType.plain "a" .nearest).ofPlayers false
  else { SelectorType.plain "e" .nearest with aliveOnly := true }

/-- The arguments that a marked entity is sought with. -/
def seekerArguments (tag : String) : List (Entry ArgValue) :=
  [⟨"tag", false, .text tag⟩, ⟨"c", false, .int 1⟩]

/-- The selector of one entity with a tag. -/
def seeker (tag : String) (isPlayer : Bool) : Selector :=
  ⟨seekerType isPlayer, grouped (seekerArguments tag)⟩

theorem type?_seekerType (isPlayer : Bool) :
    standard.type? (seekerType isPlayer).name = some (seekerType isPlayer) := by
  cases isPlayer <;> cbv

theorem argument?_tag : standard.argument? "tag" = some ⟨"tag", .text, .always, true⟩ := by cbv

variable {tag : String} {isPlayer : Bool}

theorem build_seeker (tag : String) (isPlayer : Bool) :
    build standard (seekerType isPlayer) (seekerArguments tag) = .ok (seeker tag isPlayer) := by
  have htag : check standard (seekerType isPlayer) ⟨"tag", false, .text tag⟩ = .ok () := by
    have hkey : "tag" ≠ "type" := by decide
    exact check_eq_ok_iff.2 ⟨_, argument?_tag, nofun, rfl, fun h => hkey h.1⟩
  have hcount : check standard (seekerType isPlayer) ⟨"c", false, .int 1⟩ = .ok () := by
    have hkey : "c" ≠ "type" := by decide
    exact check_eq_ok_iff.2 ⟨_, argument?_count, nofun, rfl, fun h => hkey h.1⟩
  refine build_eq_ok_iff.2 ⟨?_, duplicated?_of_nodup standard (by simp [seekerArguments]), rfl⟩
  simp [seekerArguments, htag, hcount]

/-- A tag that needs no quotes stands in the text as an argument is printed. -/
theorem markerSelector_eq (h : ArgValue.needsQuotes tag.toList = false) (isPlayer : Bool) :
    Renderer.markerSelector tag isPlayer = "@" ++ (seekerType isPlayer).name ++
      ("[" ++ ",".intercalate ((seekerArguments tag).map occurrenceText) ++ "]") := by
  have htag : toString (ArgValue.text tag) = tag := if_neg (by rw [h]; decide)
  have hcount : toString (ArgValue.int 1) = "1" := by decide
  apply String.toList_inj.1
  unfold Renderer.markerSelector
  cases isPlayer <;>
    simp [seekerArguments, occurrenceText, htag, hcount, seekerType, SelectorType.plain,
      SelectorType.ofPlayers]

theorem parse_markerSelector (h : ArgValue.needsQuotes tag.toList = false) (isPlayer : Bool) :
    parse .standard (Renderer.markerSelector tag isPlayer) = .ok (seeker tag isPlayer) := by
  have hkey {name : String} (hname : IsWord name) :
      ArgValue.ReadsAsKey ['=', ',', ']'] name.toList name :=
    readsAsKey_of_isWord (by decide) hname
  have htag : IsWord "tag" := by decide
  have hcount : IsWord "c" := by decide
  have hname : (seekerType isPlayer).name.toList.all isTypeChar := by cases isPlayer <;> decide
  rw [markerSelector_eq h]
  refine parse_written (List.all_eq_true.1 hname) (type?_seekerType isPlayer) ?_
    (build_seeker tag isPlayer)
  exact .cons (.intro (hkey htag) (ArgValue.readsAs_text tag))
    (.cons (.intro (hkey hcount) (ArgValue.readsAs_int 1)) .nil)

/-! ## What it selects -/

theorem get_seeker (tag : String) (isPlayer : Bool) (key : String) :
    (seeker tag isPlayer).get key = if key = "tag" then [⟨false, .text tag⟩]
      else if key = "c" then [⟨false, .int 1⟩] else [] := by
  unfold seeker
  rw [get_grouped]
  by_cases ht : key = "tag"
  · subst ht; rfl
  · by_cases hc : key = "c"
    · subst hc; rfl
    · simp [occurrencesOf, seekerArguments, ht, hc, Ne.symm ht, Ne.symm hc]

theorem meets_seeker_iff {tag : String} {isPlayer : Bool} {board : Scoreboard} {centre : Vec3}
    {id : EntityId} {e : Entity} :
    (seeker tag isPlayer).Meets board centre id e ↔ e.tags.has tag := by
  rw [meets_iff_tag fun name ht hc => by rw [get_seeker, if_neg ht, if_neg hc]]
  have hget : (seeker tag isPlayer).get "tag" = [⟨false, .text tag⟩] := get_seeker ..
  constructor
  · exact fun h => h.1 tag ⟨[], [], hget, nofun⟩
  · intro h
    refine ⟨?_, fun text hexcludes => ?_⟩
    · rintro text ⟨before, rest, hfirst, -⟩
      have hmem : (⟨false, .text text⟩ : Argument) ∈ [⟨false, .text tag⟩] := by
        rw [← hget, hfirst]
        exact List.mem_append_right _ List.mem_cons_self
      cases List.mem_singleton.1 hmem
      exact h
    · rw [Excludes, hget] at hexcludes
      cases List.mem_singleton.1 hexcludes

variable {w : World} {c : Context} {id : EntityId} {e : Entity}

theorem selects_seeker_iff {centre : Vec3} :
    (seeker tag isPlayer).Selects w c centre id e ↔
      e.dimension ∈ w.dimensions.toList ∧ e.tags.has tag ∧
        if isPlayer then e.isPlayer ∧ e.entityType = playerType else e.alive := by
  have hname : (seeker tag isPlayer).type.name = if isPlayer then "a" else "e" := by
    cases isPlayer <;> rfl
  have hplayers : (seeker tag isPlayer).playersOnly ↔ isPlayer := by
    unfold playersOnly
    rw [hname]
    cases isPlayer <;> decide
  have hpermission : (seeker tag isPlayer).get "haspermission" = [] := get_seeker ..
  have hspatial : ¬ ∃ name ∈ ["dx", "dy", "dz", "r", "rm"], (seeker tag isPlayer).Given name := by
    simp [Given, get_seeker]
  constructor
  · intro h
    have hplaced := h.placed
    rw [if_neg hspatial] at hplaced
    refine ⟨hplaced, meets_seeker_iff.1 h.meets, ?_⟩
    have hpresent := h.present
    rw [hname] at hpresent
    cases isPlayer with
    | true =>
      have htype := h.typed (.inl (hplayers.2 rfl))
      exact ⟨hpresent.resolve_left fun hl => hl.2 htype, htype⟩
    | false => exact hpresent
  · rintro ⟨hplaced, htag, hpresent⟩
    constructor
    · rwa [if_neg hspatial]
    · rw [hname]
      cases isPlayer with
      | true => exact .inr hpresent.1
      | false => exact hpresent
    · exact meets_seeker_iff.2 htag
    · rintro (hp | ⟨hr, _⟩)
      · obtain rfl := hplayers.1 hp
        exact hpresent.2
      · rw [hname] at hr
        cases isPlayer <;> exact absurd hr (by decide)
    · rintro entries ⟨_, _, hfirst⟩
      rw [hpermission] at hfirst
      cases hfirst
    · intro hs
      rw [hname] at hs
      cases isPlayer <;> exact absurd hs (by decide)

theorem limited_seeker (tag : String) (isPlayer : Bool) (id : EntityId) :
    (seeker tag isPlayer).limited [id] = [id] := by
  have hcount : (seeker tag isPlayer).count? = some 1 := by
    simp [count?, first?, get_seeker, ArgValue.int?]
  unfold limited limit?
  rw [hcount]
  rfl

/-- It picks the one entity that it selects. -/
theorem resolve_seeker (hw : w.Consistent) (hp : w.PlayersTyped)
    (hs : (seeker tag isPlayer).Standard) {here : Vec3} (hc : c.point w = .ok here)
    (honly : ∀ centre id', (∃ e, w.entity? id' = some e ∧
      (seeker tag isPlayer).Selects w c centre id' e) ↔ id' = id) (random : Random) :
    ∃ random', (seeker tag isPlayer).resolve w c random = .ok [id] random' := by
  obtain ⟨centre, hcentre⟩ := exists_centre hc
  obtain ⟨random', hres⟩ := resolve_of_only hw hp hs hcentre (honly centre) random
  rw [limited_seeker] at hres
  exact ⟨random', hres⟩

end Selector

namespace World

variable {w : World} {id : EntityId} {tag : String}

/-! ## The marked world -/

theorem Consistent.withTag (h : w.Consistent) {e : Entity} (he : w.entity? id = some e) :
    (w.withRecord id (·.withTag tag)).Consistent := by
  have hrun : (Operation.addTag id tag).run w = .ok none (w.withRecord id (·.withTag tag)) :=
    bind_of_ok (addTag_of_entity? he tag)
  rw [← next_of_ok hrun]
  exact h.next _

theorem PlayersTyped.withTag (h : w.PlayersTyped) :
    (w.withRecord id (·.withTag tag)).PlayersTyped := by
  intro id' e' he hp
  simp only [withRecord, OrderedMap.get?_modify] at he
  split at he
  · obtain ⟨e, hbefore, rfl⟩ := Option.map_eq_some_iff.1 he
    exact h id' e hbefore hp
  · exact h id' e' he hp

/-- A tag moves nothing. -/
theorem point_withTag (c : Context) :
    c.point (w.withRecord id (·.withTag tag)) = c.point w := by
  unfold Context.point
  cases c.position with
  | fixed point => rfl
  | bound id' =>
    have hafter : WorldView.entity? (w.withRecord id (·.withTag tag)) id' =
        if id' = id then (w.entity? id').map (·.withTag tag) else w.entity? id' :=
      entity?_withRecord w id id' _
    have hbefore : WorldView.entity? w id' = w.entity? id' := rfl
    unfold Context.record
    dsimp only
    rw [hafter, hbefore]
    by_cases hid : id' = id
    · rw [if_pos hid]
      cases w.entity? id' <;> rfl
    · rw [if_neg hid]

/-- In the marked world the marked entity is selected and no other. -/
theorem selects_withTag_iff (hp : w.PlayersTyped) {e : Entity} (he : w.entity? id = some e)
    (hpresent : e.alive ∨ e.isPlayer) (hd : e.dimension ∈ w.dimensions.toList)
    (hfresh : ∀ id' e', w.entity? id' = some e' → id' ≠ id → e'.tags.has tag = false)
    {c : Context} {centre : Vec3} {id' : EntityId} :
    (∃ e', (w.withRecord id (·.withTag tag)).entity? id' = some e' ∧
      (Selector.seeker tag e.isPlayer).Selects (w.withRecord id (·.withTag tag)) c centre id' e') ↔
      id' = id := by
  simp only [Selector.selects_seeker_iff, entity?_withRecord]
  constructor
  · rintro ⟨e', he', -, htag, -⟩
    by_contra hne
    rw [if_neg hne] at he'
    rw [hfresh id' e' he' hne] at htag
    cases htag
  · rintro rfl
    refine ⟨e.withTag tag, ?_, hd, ?_, ?_⟩
    · rw [if_pos rfl, he]
      rfl
    · exact OrderedSet.has_add e.tags tag
    · change if e.isPlayer then e.isPlayer ∧ e.entityType = playerType else e.alive
      cases hpl : e.isPlayer with
      | true => exact ⟨rfl, hp id' e (entity?_eq_some_iff.1 he).2 hpl⟩
      | false => exact hpresent.resolve_right (by rw [hpl]; nofun)

end World

/-! ## Markers -/

namespace Renderer

/-- Markers are written without quotes. -/
theorem needsQuotes_marker (number : UInt64) :
    ArgValue.needsQuotes (marker Settings.standard.markerStem number).toList = false := by
  let quoted (c : Char) : Bool := Text.isBlank c || ArgValue.quoteTriggers.contains c
  have hdigits : (toString number).toList.any quoted = false := by
    have hnone : (Text.blanks ++ ArgValue.quoteTriggers).any Char.isDigit = false := by decide
    have htext : (toString number).toList = Nat.toDigits 10 number.toNat := Nat.toList_repr
    rw [htext]
    refine List.any_eq_false.2 fun c hc hq => ?_
    have hd : c.isDigit := Nat.isDigit_of_mem_toDigits (by decide) (by decide) hc
    have hmem : c ∈ Text.blanks ++ ArgValue.quoteTriggers := by
      simpa [quoted, Text.isBlank, List.contains_iff_mem] using hq
    exact List.any_eq_false.1 hnone c hmem hd
  have hstem : Settings.standard.markerStem.toList.any quoted = false := by decide
  -- The first letter already tells the marker from a number and from `true` and `false`.
  obtain ⟨rest, hrest⟩ : ∃ rest, Settings.standard.markerStem.toList = 'v' :: rest := ⟨_, rfl⟩
  have hchars : ('v' :: (rest ++ (toString number).toList)).any quoted = false := by
    rw [← List.cons_append, ← hrest, List.any_append, hstem, hdigits]
    rfl
  rw [marker, String.toList_append, hrest, List.cons_append]
  unfold ArgValue.needsQuotes
  rw [hchars]
  rfl

variable {w : World} {id : EntityId}

/-- Once an entity carries a marker that no other entity carries, the text by which its
command finds it is read as a selector that picks this entity alone, from every context
that has a point. -/
theorem markerSelector_picks (hw : w.Consistent) (hp : w.PlayersTyped) {e : Entity}
    (he : w.entity? id = some e) (hpresent : e.alive ∨ e.isPlayer)
    (hd : e.dimension ∈ w.dimensions.toList) (number : UInt64)
    (hfresh : ∀ id' e', w.entity? id' = some e' → id' ≠ id →
      e'.tags.has (marker Settings.standard.markerStem number) = false) :
    let tag := marker Settings.standard.markerStem number
    let text := (if e.isPlayer then "@a" else "@e") ++ "[tag=" ++ tag ++ ",c=1]"
    (∀ (r : Renderer) (c : Context) (command : String),
      r.markerStem = Settings.standard.markerStem → r.nextMarker = number →
        ∃ ending, r.renderNext w c id command = r.header c ++ " positioned as " ++ text ++ ending) ∧
    ∃ w' s, Host.addTag id tag w = .ok () w' ∧ Selector.parse .standard text = .ok s ∧
      ∀ (c : Context) (here : Vec3) (random : Random), c.point w = .ok here →
        ∃ random', s.resolve w' c random = .ok [id] random' := by
  intro tag text
  have hview : WorldView.entity? w id = some e := he
  have hparse : Selector.parse .standard text = .ok (Selector.seeker tag e.isPlayer) :=
    Selector.parse_markerSelector (needsQuotes_marker number) e.isPlayer
  refine ⟨fun r c command hstem hnumber => ?_, w.withRecord id (·.withTag tag),
    Selector.seeker tag e.isPlayer, World.addTag_of_entity? he tag, hparse,
    fun c here random hc => ?_⟩
  · have hplayer : (WorldView.entity? w id).any Entity.isPlayer = e.isPlayer := by rw [hview]; rfl
    refine ⟨(if c.anchor = .eyes then " anchored eyes positioned ^ ^ ^" else "") ++ " run " ++
      command, ?_⟩
    rw [renderNext, hplayer, hstem, hnumber]
    simp only [renderMarked, markerSelector, text, tag, String.append_assoc]
  · have hpoint : c.point (w.withRecord id (·.withTag tag)) = .ok here :=
      (World.point_withTag c).trans hc
    exact Selector.resolve_seeker (hw.withTag he) hp.withTag
      (Selector.standard_of_parse hparse) hpoint
      (fun _ _ => World.selects_withTag_iff hp he hpresent hd hfresh) random

/-- A dead player between cows, of which one has the next marker, sought from where the
player is. -/
theorem markerSelector_picks_dead_player :
    let w := (World.perform [.spawn (.ofType "cow"),
      .spawn { Entity.ofPlayer "Alex" with alive := false }, .spawn (.ofType "cow"),
      .addTag ⟨0, 1⟩ "voxecute_marker_1"]).2
    let c : Context := ⟨⟨0, .server⟩, none, .overworld, .bound ⟨1, 1⟩, .zero, .feet⟩
    ∃ w' s random', Host.addTag ⟨1, 1⟩ "voxecute_marker_0" w = .ok () w' ∧
      Selector.parse .standard "@a[tag=voxecute_marker_0,c=1]" = .ok s ∧
      s.resolve w' c (.ofSeed 1) = .ok [⟨1, 1⟩] random' := by
  intro w c
  have hw : w.Consistent := World.consistent_perform _
  have hrecords : ∀ r ∈ w.entities.entries, (r.2.isPlayer → r.2.entityType = playerType) ∧
      (r.1 ≠ ⟨1, 1⟩ → r.2.tags.has "voxecute_marker_0" = false) := by
    decide +kernel
  have hp : w.PlayersTyped := fun id e he =>
    (hrecords (id, e) (OrderedMap.mem_entries_iff.2 he)).1
  have he : w.entity? ⟨1, 1⟩ = some { Entity.ofPlayer "Alex" with alive := false } := rfl
  have hd : DimensionId.overworld ∈ w.dimensions.toList := by decide +kernel
  have hmarker : marker Settings.standard.markerStem 0 = "voxecute_marker_0" := by decide +kernel
  have hfresh : ∀ id e, w.entity? id = some e → id ≠ ⟨1, 1⟩ →
      e.tags.has (marker Settings.standard.markerStem 0) = false := by
    intro id e he hne
    rw [hmarker]
    exact (hrecords (id, e) (OrderedMap.mem_entries_iff.2 (World.entity?_eq_some_iff.1 he).2)).2 hne
  obtain ⟨-, w', s, hadd, hparse, hpicks⟩ := markerSelector_picks hw hp he (.inr rfl) hd 0 hfresh
  rw [hmarker] at hadd hparse
  obtain ⟨random', hresolve⟩ := hpicks c .zero (.ofSeed 1) rfl
  exact ⟨w', s, random', hadd, hparse, hresolve⟩

end Renderer

end CommandChain
