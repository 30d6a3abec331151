import CommandChain.Proofs.Text.Word
import CommandChain.Proofs.World.Submission

/-!
# Rejected verbs

A world judges a command by its first word and by the first word behind its last ` run `. So of
a command that has been rendered, behind ` run ` of an `execute`, it may find less than the whole
(`judged`): the command's own last ` run ` comes later than that of the rendering.

`World.submit_judges` says which verbs this makes a renderer's command depend on. Its first word
is one of them if the command has no ` run `. A command that has one is run with a first word
that is rejected, as `World.submit_runs_rejected_verb` shows.
-/

namespace CommandChain

/-- What is between a context and the command that runs there. -/
def runMark : List Char := [' ', 'r', 'u', 'n', ' ']

/-- What a world finds of a command that has been rendered: the command behind its own last
` run `, or the whole command if it has none. -/
def judged (command : List Char) : List Char :=
  (Text.afterLast runMark (' ' :: Text.trimEnd command)).getD (Text.trimEnd command)

/-! ## Rendered commands -/

section

variable {command verb : List Char}

theorem afterLast_cons_of_ne {c : Char} (hc : c ≠ ' ') (s : List Char) :
    Text.afterLast runMark (c :: s) = Text.afterLast runMark s := by
  have hmark : runMark.isPrefixOf (c :: s) = false := by
    simp [runMark, List.isPrefixOf, hc.symm]
  rw [Text.afterLast, hmark]
  cases Text.afterLast runMark s <;> rfl

/-- The mark of the rendering is the last one, or the command has a later one, which may begin
with the blank that the first one ends with. -/
theorem afterLast_runMark (s command : List Char) :
    Text.afterLast runMark (s ++ runMark ++ command) =
      some ((Text.afterLast runMark (' ' :: command)).getD command) := by
  have hmark : Text.afterLast runMark (runMark ++ command) =
      some ((Text.afterLast runMark (' ' :: command)).getD command) := by
    have hinner : Text.afterLast runMark ('r' :: 'u' :: 'n' :: ' ' :: command) =
        Text.afterLast runMark (' ' :: command) := by
      rw [afterLast_cons_of_ne (by decide), afterLast_cons_of_ne (by decide),
        afterLast_cons_of_ne (by decide)]
    have hfirst : runMark.isPrefixOf (runMark ++ command) :=
      List.isPrefixOf_iff_prefix.2 (List.prefix_append _ _)
    change Text.afterLast runMark (' ' :: 'r' :: 'u' :: 'n' :: ' ' :: command) = _
    rw [Text.afterLast, hinner]
    cases Text.afterLast runMark (' ' :: command) with
    | some tail => rfl
    | none => exact if_pos hfirst
  rw [List.append_assoc]
  exact Text.afterLast_append hmark s

theorem judged_of_none (h : Text.afterLast runMark (' ' :: Text.trimEnd command) = none) :
    judged command = Text.trimEnd command := by
  rw [judged, h]
  rfl

/-- There is a word to judge, if the command has one. -/
theorem exists_firstWord_judged (h : Text.firstWord command = some verb) :
    ∃ verb', Text.firstWord (judged command) = some verb' := by
  cases hlast : Text.afterLast runMark (' ' :: Text.trimEnd command) with
  | none => exact ⟨verb, by rw [judged_of_none hlast, Text.firstWord_trimEnd, h]⟩
  | some tail =>
    have hjudged : judged command = tail := by rw [judged, hlast]; rfl
    rw [hjudged, Text.exists_firstWord_iff]
    by_contra hblank
    -- then the trimmed command would end in a blank
    obtain ⟨a, ha⟩ := Text.exists_of_afterLast hlast
    obtain ⟨c, hc⟩ : ∃ c, (' ' :: tail).getLast? = some c := ⟨_, List.getLast?_cons⟩
    have hcblank : Text.isBlank c := by
      rcases List.mem_cons.1 (List.mem_of_getLast? hc) with rfl | hmem
      · decide
      · exact by_contra fun hne => hblank ⟨c, hmem, hne⟩
    obtain ⟨d, s, hs⟩ : ∃ d s, Text.trimEnd command = d :: s := by
      refine List.exists_cons_of_ne_nil fun hnil => ?_
      rw [← Text.firstWord_trimEnd, hnil] at h
      cases h
    have hend : (' ' :: Text.trimEnd command).getLast? = some c := by
      have hsplit : a ++ runMark ++ tail = a ++ [' ', 'r', 'u', 'n'] ++ ' ' :: tail := by
        simp [runMark]
      rw [ha, hsplit, List.getLast?_append_cons, hc]
    rw [hs, List.getLast?_cons_cons, ← hs] at hend
    exact Text.not_blank_of_getLast hend hcblank

/-- A text that runs the command, behind the first word `execute`. -/
def Wraps (text : String) (command : List Char) : Prop :=
  ∃ s, text.toList = ['e', 'x', 'e', 'c', 'u', 't', 'e'] ++ ' ' :: s ++ runMark ++ command

theorem Renderer.wraps_submitted {W : Type} [WorldView W] {r : Renderer}
    (hr : r.commandWord = "execute") (world : W) (c : Context) (command : String) :
    Wraps (r.submitted world c command) command.toList := by
  unfold submitted
  cases hc : c.position with
  | fixed point =>
    refine ⟨("in " ++ toString c.dimension ++ " rotated " ++ toString c.rotation ++
      " positioned " ++ toString point).toList, ?_⟩
    simp [renderAt, header, hr, runMark]
  | bound id =>
    refine ⟨("in " ++ toString c.dimension ++ " rotated " ++ toString c.rotation ++
      " positioned as " ++ markerSelector (marker r.markerStem r.nextMarker)
        ((WorldView.entity? world id).any Entity.isPlayer) ++
      if c.anchor = .eyes then " anchored eyes positioned ^ ^ ^" else "").toList, ?_⟩
    simp [renderNext, renderMarked, header, hr, runMark]

theorem trim_of_wraps {text : String} (h : Wraps text command)
    (hverb : Text.firstWord command = some verb) :
    ∃ s, Text.trim text.toList =
      ['e', 'x', 'e', 'c', 'u', 't', 'e'] ++ ' ' :: s ++ runMark ++ Text.trimEnd command := by
  obtain ⟨s, hs⟩ := h
  refine ⟨s, ?_⟩
  have hstart : Text.trimStart text.toList = text.toList := by
    rw [hs]
    exact List.dropWhile_cons_of_neg (by decide)
  rw [Text.trim, hstart, hs, Text.trimEnd_append (Text.exists_firstWord_iff.1 ⟨verb, hverb⟩)]

/-- A world judges a rendered command by `execute` and by the first word of what it finds. -/
theorem World.verbs_of_wraps {text : String} {verb' : List Char} (h : Wraps text command)
    (hverb : Text.firstWord command = some verb)
    (hjudged : Text.firstWord (judged command) = some verb') :
    Text.firstWord (Text.trim text.toList) = some "execute".toList ∧
      World.runVerb (Text.trim text.toList) "execute".toList = verb' := by
  obtain ⟨s, hs⟩ := trim_of_wraps h hverb
  rw [hs]
  constructor
  · have hexecute : ∀ c ∈ ['e', 'x', 'e', 'c', 'u', 't', 'e'], ¬ Text.isBlank c := by
      simp [Text.isBlank, Text.blanks]
    rw [List.append_assoc, List.append_assoc]
    refine Text.firstWord_word hexecute (by decide) ?_
    rintro _ ⟨⟩
    decide
  · have htail := afterLast_runMark (['e', 'x', 'e', 'c', 'u', 't', 'e'] ++ ' ' :: s)
      (Text.trimEnd command)
    unfold World.runVerb World.executed
    rw [← runMark, htail]
    change (Text.firstWord (Text.trim (judged command))).getD _ = verb'
    rw [Text.firstWord_trim, hjudged]
    rfl

end

namespace World

/-! ## Verbs that are looked up -/

/-- The world with other verbs rejected. -/
def rejecting (w : World) (verbs : OrderedSet String) : World := { w with rejected := verbs }

section

variable {w : World} {text : String} {verb verb' : List Char} {verbs : OrderedSet String}

/-- An entity that a command is submitted by exists. -/
def validateSource (w : World) : CommandSource → Except Error Unit
  | .entity id => w.store.validate id
  | .dimension _ => .ok ()

/-- What becomes of a command that a world does not reject by its verbs. -/
def accept (w : World) (source : CommandSource) (text : String) : Except Error (Nat × World) :=
  if (tagsIn (Text.trim text.toList)).all w.carried then
    .ok (1, { w with log := w.log ++ [⟨source, Text.trimmed text⟩] })
  else .error ⟨.commandFailed text "no targets matched selector", none⟩

theorem submit_eq (hverb : Text.firstWord (Text.trim text.toList) = some verb)
    (hrun : runVerb (Text.trim text.toList) verb = verb') (source : CommandSource) :
    w.submit source text = (w.validateSource source >>= fun _ =>
      if w.rejected.has (String.ofList verb) || w.rejected.has (String.ofList verb') then
        .error ⟨.commandFailed text ("unknown command: " ++ String.ofList verb'), none⟩
      else w.accept source text) := by
  simp only [submit, hverb, hrun, accept, Bool.not_eq_true']
  cases ht : (tagsIn (Text.trim text.toList)).all w.carried <;> cases source <;> rfl

/-- Neither word is among the verbs. -/
def Admits (verbs : OrderedSet String) (verb verb' : List Char) : Prop :=
  (verbs.has (String.ofList verb) || verbs.has (String.ofList verb')) = false

instance (verbs : OrderedSet String) (verb verb' : List Char) :
    Decidable (Admits verbs verb verb') :=
  inferInstanceAs (Decidable (_ = false))

theorem exists_submit_error (hverb : Text.firstWord (Text.trim text.toList) = some verb)
    (hrun : runVerb (Text.trim text.toList) verb = verb')
    (h : ¬ Admits w.rejected verb verb') (source : CommandSource) :
    ∃ e, w.submit source text = .error e := by
  rw [submit_eq hverb hrun]
  cases w.validateSource source with
  | error e => exact ⟨e, rfl⟩
  | ok u => exact ⟨_, if_pos (by simpa only [Admits, Bool.not_eq_false] using h)⟩

theorem accept_rejecting (w : World) (source : CommandSource) (text : String)
    (verbs : OrderedSet String) :
    (w.rejecting verbs).accept source text =
      (w.accept source text).map (Prod.map id (·.rejecting verbs)) := by
  have hcarried : (w.rejecting verbs).carried = w.carried := rfl
  simp only [accept, hcarried]
  split <;> rfl

theorem submit_rejecting (hverb : Text.firstWord (Text.trim text.toList) = some verb)
    (hrun : runVerb (Text.trim text.toList) verb = verb') (h : Admits w.rejected verb verb')
    (hverbs : Admits verbs verb verb') (source : CommandSource) :
    (w.rejecting verbs).submit source text =
      (w.submit source text).map (Prod.map id (·.rejecting verbs)) := by
  have hsource : (w.rejecting verbs).validateSource source = w.validateSource source := by
    cases source <;> rfl
  have hrejected : (w.rejecting verbs).rejected = verbs := rfl
  rw [submit_eq hverb hrun, submit_eq hverb hrun, hsource, hrejected, h, hverbs]
  simp only [Bool.false_eq_true, if_false]
  cases w.validateSource source with
  | error e => rfl
  | ok u => exact accept_rejecting w source text verbs

theorem host_submit_rejecting (hverb : Text.firstWord (Text.trim text.toList) = some verb)
    (hrun : runVerb (Text.trim text.toList) verb = verb') (h : Admits w.rejected verb verb')
    (hverbs : Admits verbs verb verb') (source : CommandSource) :
    Host.submit source text (w.rejecting verbs) =
      mapState (·.rejecting verbs) (Host.submit source text w) := by
  simp only [Host.submit, submit_rejecting hverb hrun h hverbs source]
  cases w.submit source text <;> rfl

end

/-! ## Markers beside rejected verbs -/

theorem edit_rejecting (w : World) (id : EntityId) (f : Entity → Entity)
    (verbs : OrderedSet String) :
    (w.rejecting verbs).edit id f = (w.edit id f).map (·.rejecting verbs) := by
  simp only [edit, rejecting]
  cases w.store.validate id with
  | error e => rfl
  | ok u =>
    by_cases hc : w.entities.contains id
    · simp only [bind, Except.bind, hc]; rfl
    · simp only [bind, Except.bind, hc]; rfl

theorem addTag_rejecting (id : EntityId) (tag : String) (verbs : OrderedSet String) :
    Effect.Projects (rejecting · verbs) (Host.addTag id tag) (Host.addTag id tag) := by
  intro w
  simp only [Host.addTag, effect, addTag, edit_rejecting]
  cases w.edit id (fun e => { e with tags := e.tags.add tag }) <;> rfl

theorem removeTag_rejecting (id : EntityId) (tag : String) (verbs : OrderedSet String) :
    Effect.Projects (rejecting · verbs) (Host.removeTag id tag) (Host.removeTag id tag) := by
  intro w
  simp only [Host.removeTag, effect, removeTag, edit_rejecting]
  cases w.edit id (fun e => { e with tags := e.tags.remove tag }) <;> rfl

section

variable {w : World} {text : String} {verb verb' : List Char} {verbs : OrderedSet String}
  (hverb : Text.firstWord (Text.trim text.toList) = some verb)
  (hrun : runVerb (Text.trim text.toList) verb = verb')

include hverb hrun

theorem exists_submitMarked_error (h : ¬ Admits w.rejected verb verb') (id : EntityId)
    (marker : String) (source : CommandSource) :
    ∃ e w', Renderer.submitMarked id marker source text w = .error e w' := by
  cases hid : w.entity? id with
  | none =>
    obtain ⟨e, he⟩ := addTag_of_unknown hid marker
    exact ⟨e, _, Renderer.submitMarked_of_error he⟩
  | some record =>
    let marked := w.withRecord id (·.withTag marker)
    have hmarked : ¬ Admits marked.rejected verb verb' := h
    obtain ⟨e, he⟩ := exists_submit_error hverb hrun hmarked source
    have hsubmit : Host.submit source text marked = .error e marked := by
      simp only [Host.submit, he]
    have hrecord : marked.entity? id = some (record.withTag marker) := by
      rw [entity?_withRecord, if_pos rfl, hid, Option.map_some]
    rw [Renderer.submitMarked_of_ok (addTag_of_entity? hid marker)]
    exact ⟨e, _, Effect.ensuring_of_error hsubmit (removeTag_of_entity? hrecord marker)⟩

theorem submitMarked_rejecting (h : Admits w.rejected verb verb') (hverbs : Admits verbs verb verb')
    (id : EntityId) (marker : String) (source : CommandSource) :
    Renderer.submitMarked id marker source text (w.rejecting verbs) =
      mapState (·.rejecting verbs) (Renderer.submitMarked id marker source text w) := by
  have hadd := addTag_rejecting id marker verbs w
  cases hid : w.entity? id with
  | none =>
    obtain ⟨e, he⟩ := addTag_of_unknown hid marker
    rw [he] at hadd
    rw [Renderer.submitMarked_of_error he, Renderer.submitMarked_of_error hadd]
    rfl
  | some record =>
    let marked := w.withRecord id (·.withTag marker)
    have hmarked : Admits marked.rejected verb verb' := h
    have hsubmit := host_submit_rejecting hverb hrun hmarked hverbs source
    rw [addTag_of_entity? hid marker] at hadd
    rw [Renderer.submitMarked_of_ok (addTag_of_entity? hid marker),
      Renderer.submitMarked_of_ok hadd]
    exact Effect.ensuring_of_mapState hsubmit (removeTag_rejecting id marker verbs)

end

/-! ## Submissions -/

section

variable {w : World} {r : Renderer} {c : Context} {command : String} {verb verb' : List Char}
  (hverb : Text.firstWord (Text.trim (r.submitted w c command).toList) = some verb)
  (hrun : runVerb (Text.trim (r.submitted w c command).toList) verb = verb')

include hverb hrun

theorem exists_rendered_error (h : ¬ Admits w.rejected verb verb') :
    ∃ e state, Renderer.submit c command (w, r) = .error e state := by
  cases hc : c.position with
  | fixed point =>
    obtain ⟨e, he⟩ := exists_submit_error hverb hrun h (Renderer.source c)
    simp only [Renderer.submitted, hc] at he
    refine ⟨e, (w, r), ?_⟩
    simp only [Renderer.submit_fixed hc, Host.submit, he]
    rfl
  | bound id =>
    obtain ⟨e, w', he⟩ := exists_submitMarked_error hverb hrun h id
      (Renderer.marker r.markerStem r.nextMarker) (Renderer.source c)
    simp only [Renderer.submitted, hc] at he
    exact ⟨e, (w', r.advanced 1), by rw [Renderer.submit_bound hc, he]; rfl⟩

theorem rendered_rejecting {verbs : OrderedSet String} (h : Admits w.rejected verb verb')
    (hverbs : Admits verbs verb verb') :
    Renderer.submit c command (w.rejecting verbs, r) =
      mapState (Prod.map (·.rejecting verbs) id) (Renderer.submit c command (w, r)) := by
  cases hc : c.position with
  | fixed point =>
    have hsubmit := host_submit_rejecting hverb hrun h hverbs (Renderer.source c)
    simp only [Renderer.submitted, hc] at hsubmit
    rw [Renderer.submit_fixed hc, Renderer.submit_fixed hc, hsubmit, mapState_mapState,
      mapState_mapState]
    rfl
  | bound id =>
    have hsubmit := submitMarked_rejecting hverb hrun h hverbs id
      (Renderer.marker r.markerStem r.nextMarker) (Renderer.source c)
    simp only [Renderer.submitted, hc] at hsubmit
    have hsame : r.renderNext (w.rejecting verbs) c id command = r.renderNext w c id command :=
      rfl
    rw [Renderer.submit_bound hc, Renderer.submit_bound hc, hsame, hsubmit, mapState_mapState,
      mapState_mapState]
    rfl

end

/-- A renderer's command is judged by `execute` and by the first word behind its own last
` run `, which is its own first word if it has no ` run `. A world that rejects either gives an
error and logs nothing. Otherwise it does what it would do with any other verbs rejected: that
it rejects the command's first word makes no difference. -/
theorem submit_judges {r : Renderer} (hr : r.commandWord = "execute") {command : String}
    {verb : List Char} (hverb : Text.firstWord command.toList = some verb) (w : World)
    (c : Context) :
    ∃ verb', Text.firstWord (judged command.toList) = some verb' ∧
      (Text.afterLast runMark (' ' :: Text.trimEnd command.toList) = none → verb' = verb) ∧
      (¬ Admits w.rejected "execute".toList verb' →
        ∃ e state, Renderer.submit c command (w, r) = .error e state ∧ state.1.log = w.log) ∧
      (Admits w.rejected "execute".toList verb' →
        ∀ verbs, Admits verbs "execute".toList verb' →
          Renderer.submit c command (w.rejecting verbs, r) =
            mapState (Prod.map (·.rejecting verbs) id) (Renderer.submit c command (w, r))) := by
  obtain ⟨verb', hjudged⟩ := exists_firstWord_judged hverb
  obtain ⟨hfirst, hrun⟩ := verbs_of_wraps (Renderer.wraps_submitted hr w c command) hverb hjudged
  refine ⟨verb', hjudged, fun hnone => ?_, fun h => ?_, fun h verbs hverbs => ?_⟩
  · rw [judged_of_none hnone, Text.firstWord_trimEnd, hverb] at hjudged
    exact (Option.some.inj hjudged).symm
  · obtain ⟨e, state, he⟩ := exists_rendered_error hfirst hrun h
    exact ⟨e, state, he, log_of_submit_error he⟩
  · exact rendered_rejecting hfirst hrun h hverbs

/-- A command with the rejected verb `kill` is run, because a later ` run ` is followed by
another verb. -/
theorem submit_runs_rejected_verb :
    let w := World.new.reject "kill"
    let c := Context.atPoint ⟨0, .server⟩ .overworld .zero
    let command := "kill run say hi"
    let result := Renderer.submit c command (w, .ofSettings .standard)
    w.rejected.has "kill" ∧ Text.firstWord command.toList = some "kill".toList ∧
      value? result = some 1 ∧ (stateLeft result).1.log.map (·.command) =
        ["execute in minecraft:overworld rotated 0 0 positioned 0 0 0 run kill run say hi"] := by
  decide +kernel

/-- Without a later ` run ` the verb is rejected, and with one it does not matter. -/
theorem submit_judges_kill :
    let w := World.new.reject "kill"
    let c := Context.atPoint ⟨0, .server⟩ .overworld .zero
    let r := Renderer.ofSettings .standard
    (∃ e state, Renderer.submit c "kill @s" (w, r) = .error e state ∧ state.1.log = w.log) ∧
      Renderer.submit c "kill run say hi" (w.rejecting ∅, r) =
        mapState (Prod.map (·.rejecting ∅) id) (Renderer.submit c "kill run say hi" (w, r)) := by
  intro w c r
  have hkill : Text.firstWord "kill @s".toList = some "kill".toList := by decide
  have hrun : Text.firstWord "kill run say hi".toList = some "kill".toList := by decide
  obtain ⟨verb, -, hverb, herror, -⟩ := submit_judges (r := r) rfl hkill w c
  obtain ⟨verb', hjudged, -, -, hsame⟩ := submit_judges (r := r) rfl hrun w c
  obtain rfl : verb' = "say".toList :=
    Option.some.inj (hjudged.symm.trans (by decide +kernel))
  refine ⟨herror ?_, hsame (by decide +kernel) ∅ (by decide +kernel)⟩
  rw [hverb (by decide +kernel)]
  decide +kernel

end World

end CommandChain
