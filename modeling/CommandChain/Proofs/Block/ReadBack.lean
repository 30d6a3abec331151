import CommandChain.Block.Predicate
import CommandChain.Proofs.Scanner.Numeral
import CommandChain.Proofs.Scanner.Strings
import Mathlib.Data.Bool.AllAny

/-!
# Block predicates read back

Keys are written as they are, and the text of a value between quotes as it is. So a state is
read back exactly if its key needs no quotes and its text no escapes (`Legible`), and a
predicate that was read if all its states are (`parse_toString_iff`).
-/

namespace CommandChain

namespace BlockPredicate

open Scan

/-- The marks behind a key. -/
def keyStops : List Char := ['=', ':', ',', ']']

/-- The string is read without quotes. -/
structure Bare (stops s : List Char) : Prop where
  ne_nil : s ≠ []
  chars : ∀ c ∈ s, c ∉ lexicon.whitespace ∧ c ∉ stops ∧ c ∉ lexicon.symbols

/-- The key is written as it would be without quotes, and the text without escapes. -/
structure Legible (s : String × StateValue) : Prop where
  key : Bare keyStops s.1.toList
  value : ∀ text, s.2 = .text text → '"' ∉ text.toList ∧ '\\' ∉ text.toList

section

variable {s follow b : List Char} {stops : List Char} {t t' : Scanner} {text : String}

theorem Bare.solid (h : Bare stops s) (follow : List Char) : lexicon.Solid (s ++ follow) := by
  refine Lexicon.Solid.append ?_ h.ne_nil follow
  intro c hc
  exact (h.chars c (List.mem_of_mem_head? hc)).1

theorem bare_of_unquoted (hl : t.lexicon = lexicon) (h : unquoted stops t = .ok text t') :
    Bare stops text.toList := by
  obtain ⟨_, -, hne, hchars, -⟩ := unquoted_eq_ok_iff.1 h
  rw [hl] at hchars
  exact ⟨hne, hchars⟩

/-! ## Ids -/

theorem Bare.qualify {name : String} (h : Bare ['['] name.toList) :
    Bare ['['] (qualify name).toList := by
  rw [toList_qualify]
  split
  · exact h
  · have hnamespace : ∀ c ∈ "minecraft:".toList,
        c ∉ lexicon.whitespace ∧ c ∉ ['['] ∧ c ∉ lexicon.symbols :=
      List.all_iff_forall_prop.1 (by decide)
    refine ⟨by simp, fun c hc => ?_⟩
    exact (List.mem_append.1 hc).elim (hnamespace c) (h.chars c)

end

/-! ## States -/

section

variable {s : String × StateValue} {follow b : List Char} {t t' : Scanner}

theorem toList_stateText (s : String × StateValue) :
    (stateText s).toList = s.1.toList ++ '=' :: (toString s.2).toList := by
  simp [stateText]

/-- A key is read as itself only if it would be without quotes: between quotes it would stand
one character further on. -/
theorem bare_of_string {key : String} {w : List Char} (hl : t.lexicon = lexicon)
    (hb : lexicon.Blanks b) (ht : key.toList ++ '=' :: w = b ++ t.rest)
    (h : string keyStops t = .ok key t') : Bare keyStops key.toList := by
  rw [string_eq] at h
  split at h
  · obtain ⟨quote, body, n, hrest, hquote, hclose, -⟩ := quoted_eq_ok_iff.1 h
    obtain ⟨b', hb', hskip, -, -⟩ := t.exists_skipBlanks
    rw [hl] at hb'
    have hquote : quote ≠ '=' := by
      rintro rfl
      have hquotes : t.skipBlanks.lexicon = lexicon := hl
      rw [hquotes] at hquote
      exact absurd hquote (by decide)
    have hblank : ∀ b, lexicon.Blanks b → '=' ∉ b := fun b hb hmem => absurd (hb _ hmem) (by decide)
    have hle := idxOf_le_of_closeQuote (d := '=') (by decide) hclose
    have hidx := idxOf_append_mark key.toList '=' w
    rw [ht, hskip, hrest, List.idxOf_append_of_notMem (hblank b hb),
      List.idxOf_append_of_notMem (hblank b' hb'), List.idxOf_cons_ne _ hquote] at hidx
    omega
  · exact bare_of_unquoted (t := t.skipBlanks) hl h

/-- A state may end before the text. -/
def Ends (follow : List Char) : Prop :=
  ∀ c ∈ follow.head?, c ∈ lexicon.whitespace ∨ c ∈ [',', ']']

theorem startsNumber_of_mark :
    ∀ c ∈ lexicon.whitespace ++ [',', ']'], ArgValue.startsNumber c = false :=
  List.all_iff_forall_prop.1 (by decide)

theorem Ends.clear (h : Ends follow) : Numeral.Clear follow :=
  fun c hc => startsNumber_of_mark c (List.mem_append.2 (h c hc))

theorem ends_of_mark (b : List Char) (c : Char) (rest : List Char) (hb : lexicon.Blanks b)
    (hc : c = ',' ∨ c = ']') : Ends (b ++ c :: rest) := by
  cases b with
  | nil => intro c' hc'; cases hc'; exact .inr (by simpa using hc)
  | cons c' b => intro c'' hc''; cases hc''; exact .inl (hb c' List.mem_cons_self)

theorem reads_string_bare {key : String} {w : List Char} (hkey : Bare keyStops key.toList)
    (hb : lexicon.Blanks b) :
    Reads lexicon (string keyStops) (b ++ key.toList) ('=' :: w) key := by
  have hend : ∀ c ∈ ('=' :: w).head?, c ∈ lexicon.whitespace ∨ c ∈ keyStops := by
    intro c hc
    cases hc
    exact .inr List.mem_cons_self
  have hquote : lexicon.quotes ⊆ lexicon.symbols := by decide
  have hread := reads_string_unquoted hb hkey.ne_nil
    (fun c hc h => (hkey.chars c hc).2.2 (hquote h)) hkey.chars hend
  rwa [String.ofList_toList] at hread

theorem reads_equals : Reads lexicon (consumeAny ["=", ":"] true) ['='] follow (some "=") := by
  intro t hl ht
  have hsolid : t.lexicon.Solid ('=' :: follow) := by
    rw [hl]
    intro c hc
    cases hc
    decide
  have hskip : t.settled true = t.advance ([] : List Char).length :=
    Scanner.settled_eq (t.lexicon.margin_nil true) (fun _ => hsolid) ht
  rw [List.length_nil, Scanner.advance_zero] at hskip
  have hlongest : longest ["=", ":"] ('=' :: follow) = some "=" := by
    simp [longest, List.isPrefixOf]
  simp only [consumeAny, hskip, ht, List.singleton_append, hlongest]
  rfl

/-- The value behind its first character. -/
def valueFrom (c : Char) : Scan StateValue :=
  if c = '"' then .text <$> quoted
  else atNumber >>= fun found =>
    if found then .int <$> int else wordValue <$> unquoted [',', ']']

theorem scanValue_eq : scanValue =
    (peek true >>= fun head => head.elim (fail "expected state value") valueFrom) := by
  unfold scanValue
  refine congrArg (peek true >>= ·) (funext fun head => ?_)
  unfold valueFrom
  split
  · rfl
  · rfl
  · next c hc =>
    rw [Option.elim_some, if_neg fun h => hc h]

theorem reads_scanValue_of {c : Char} {w : List Char} {v : StateValue}
    (hblank : c ∉ lexicon.whitespace) (h : Reads lexicon (valueFrom c) (c :: w) follow v) :
    Reads lexicon scanValue (c :: w) follow v := by
  rw [scanValue_eq]
  have hpeek : Reads lexicon (peek true) [] (c :: w ++ follow) (some c) :=
    reads_peek (lexicon.margin_nil true) fun _ c' hc' => by cases hc'; exact hblank
  exact hpeek.bind_nil h

theorem reads_word (word : String) (hword : Bare [',', ']'] word.toList)
    (hnumber : ∀ c ∈ word.toList.head?, ArgValue.startsNumber c = false) (h : Ends follow) :
    Reads lexicon scanValue word.toList follow (wordValue word) := by
  have hread : Reads lexicon (unquoted [',', ']']) word.toList follow (String.ofList word.toList) :=
    reads_unquoted hword.ne_nil hword.chars h
  rw [String.ofList_toList] at hread
  cases hw : word.toList with
  | nil => exact absurd hw hword.ne_nil
  | cons c w =>
    rw [hw] at hread hnumber
    have hc := hword.chars c (by rw [hw]; exact List.mem_cons_self)
    have hclear : Numeral.Clear (c :: w ++ follow) := hnumber
    refine reads_scanValue_of hc.1 ?_
    rw [valueFrom, if_neg]
    · refine Reads.bind_nil reads_atNumber ?_
      rw [hclear.read]
      exact hread.map
    · rintro rfl
      exact hc.2.2 (by decide)

/-- A value is read from its own text, a text without escapes if it needs none. -/
theorem reads_scanValue {v : StateValue}
    (hv : ∀ text, v = .text text → '"' ∉ text.toList ∧ '\\' ∉ text.toList) (h : Ends follow) :
    Reads lexicon scanValue (toString v).toList follow v := by
  cases v with
  | bool b =>
    cases b
    · exact reads_word "false" ⟨by decide, List.all_iff_forall_prop.1 (by decide)⟩
        (fun c hc => by cases hc; decide) h
    · exact reads_word "true" ⟨by decide, List.all_iff_forall_prop.1 (by decide)⟩
        (fun c hc => by cases hc; decide) h
  | int i =>
    have hstops := h.clear.stopsAt (Numeral.ofInt i.toInt)
    have hread : Reads lexicon int (toString i).toList follow i := reads_int hstops
    have hfound := Numeral.read_chars_append (Numeral.valid_ofInt i.toInt) hstops
    rw [Numeral.chars_ofInt] at hfound
    obtain ⟨c, w, htext, hc⟩ := head_int i
    have htext' : (toString i.toInt).toList = c :: w := htext
    rw [htext'] at hfound
    change Reads lexicon scanValue (toString i).toList follow (.int i)
    rw [htext] at hread ⊢
    refine reads_scanValue_of ?_ ?_
    · intro hblank
      rw [startsNumber_of_mark c (List.mem_append_left _ hblank)] at hc
      cases hc
    · rw [valueFrom, if_neg]
      · refine Reads.bind_nil reads_atNumber ?_
        rw [hfound]
        exact hread.map
      · rintro rfl
        cases hc
  | text s =>
    obtain ⟨hquote, hescape⟩ := hv s rfl
    have htext : (toString (StateValue.text s)).toList = '"' :: (s.toList ++ ['"']) := by
      change ("\"" ++ s ++ "\"").toList = _
      simp
    rw [htext]
    refine reads_scanValue_of (by decide) ?_
    rw [valueFrom, if_pos rfl]
    refine Reads.map ?_
    intro t hl ht
    have hclose : closeQuote '"' (s.toList ++ '"' :: follow) = some (s.toList, _) :=
      closeQuote_of_plain ⟨hquote, hescape⟩ (by decide)
    have hmem : '"' ∈ t.lexicon.quotes := by
      rw [hl]
      decide
    refine quoted_eq_ok_iff.2 ⟨'"', _, _, ?_, hmem, hclose, by simp⟩
    simpa using ht

/-- A state is read from its own text, with blanks before it. -/
theorem Legible.reads (hs : Legible s) (hb : lexicon.Blanks b) (h : Ends follow) :
    Reads lexicon scanState (b ++ (stateText s).toList) follow s := by
  rw [toList_stateText, ← List.append_assoc]
  refine Reads.bind (reads_string_bare hs.key hb) ?_
  refine Reads.bind reads_equals ?_
  exact (reads_scanValue hs.value h).bind_pure (reads_pure _)

theorem plain_of_scanValue {text : String} (h : scanValue t = .ok (.text text) t')
    (hl : t.lexicon = lexicon)
    (ht : t.rest = (toString (StateValue.text text)).toList ++ follow) :
    '"' ∉ text.toList ∧ '\\' ∉ text.toList := by
  have hrest : t.rest = '"' :: (text.toList ++ '"' :: follow) := by
    rw [ht]
    change ("\"" ++ text ++ "\"").toList ++ follow = _
    simp
  have hpeek : Reads lexicon (peek true) [] t.rest (some '"') := by
    rw [hrest]
    exact reads_peek (lexicon.margin_nil true) fun _ c hc => by cases hc; decide
  have hpeek := hpeek t hl rfl
  rw [List.length_nil, Scanner.advance_zero] at hpeek
  rw [scanValue_eq, bind_of_ok hpeek, Option.elim_some, valueFrom, if_pos rfl] at h
  obtain ⟨text', hquoted, heq⟩ := map_eq_ok_iff.1 h
  cases heq
  obtain ⟨quote, body, n, hbody, -, hclose, -⟩ := quoted_eq_ok_iff.1 hquoted
  rw [hrest] at hbody
  cases hbody
  exact plain_of_closeQuote (by decide) hclose

/-- What is read from the text of a state as that state needs neither quotes nor escapes. -/
theorem legible_of_scanState (hl : t.lexicon = lexicon) (hb : lexicon.Blanks b)
    (ht : (stateText s).toList ++ follow = b ++ t.rest) (h : scanState t = .ok s t') :
    Legible s ∧ b = [] := by
  obtain ⟨key, t₁, hkey, h₁⟩ := bind_eq_ok_iff.1 h
  obtain ⟨mark, t₂, hmark, h₂⟩ := bind_eq_ok_iff.1 h₁
  rw [toList_stateText, List.append_assoc, List.cons_append] at ht
  cases mark with
  | none => cases h₂
  | some mark =>
    obtain ⟨v, t₃, hvalue, h₃⟩ := bind_eq_ok_iff.1 h₂
    cases h₃
    have hbare := bare_of_string hl hb ht hkey
    have hsolid : lexicon.Solid (b ++ t.rest) := by
      rw [← ht]
      exact hbare.solid _
    obtain rfl := hb.eq_nil hsolid
    refine ⟨⟨hbare, ?_⟩, rfl⟩
    rintro text rfl
    -- Where a bare key ends is known, and so is where the value begins.
    have hread := reads_string_bare (w := (toString (StateValue.text text)).toList ++ follow)
      hbare hb
    rw [List.nil_append] at hread ht
    obtain ⟨-, rfl⟩ := hread.eq_of_ok hkey hl ht.symm
    have hrest := Scanner.rest_advance_of_append ht.symm
    obtain ⟨-, rfl⟩ := reads_equals.eq_of_ok hmark hl hrest
    have hbehind : ((t.advance key.toList.length).advance ['='].length).rest = _ :=
      Scanner.rest_advance_of_append hrest
    exact plain_of_scanValue hvalue hl hbehind

/-! ## Lists of states -/

/-- The texts of some states with commas between them. -/
def statesChars (states : List (String × StateValue)) : List Char :=
  (joined (states.map fun s => [(stateText s).toList])).flatten

theorem statesChars_cons_cons (s s' : String × StateValue) (states : List (String × StateValue)) :
    statesChars (s :: s' :: states) =
      (stateText s).toList ++ ',' :: statesChars (s' :: states) := by
  simp [statesChars, joined_cons_cons]

theorem legible_of_separated {states : List (String × StateValue)}
    (h : Separated scanState "]" t states t') (hl : t.lexicon = lexicon) (hb : lexicon.Blanks b)
    (ht : statesChars states ++ ']' :: follow = b ++ t.rest) : ∀ s ∈ states, Legible s := by
  induction h generalizing b with
  | @last t t₁ t₂ t' s hs _ _ =>
    have ht : (stateText s).toList ++ ']' :: follow = b ++ t.rest := by
      simpa [statesChars, joined] using ht
    exact List.forall_mem_singleton.2 (legible_of_scanState hl hb ht hs).1
  | @further t t₁ t₂ t' s states hs hcomma _ hrest ih =>
    cases states with
    | nil => cases hrest
    | cons s' states =>
      rw [statesChars_cons_cons, List.append_assoc] at ht
      obtain ⟨hlegible, rfl⟩ := legible_of_scanState hl hb ht hs
      have hends : Ends (',' :: (statesChars (s' :: states) ++ ']' :: follow)) :=
        ends_of_mark [] ',' _ (List.forall_mem_nil _) (.inl rfl)
      have hread := hlegible.reads hb hends
      rw [List.nil_append] at hread ht
      obtain ⟨-, rfl⟩ := hread.eq_of_ok hs hl ht.symm
      have hbehind := Scanner.rest_advance_of_append ht.symm
      have haccept : Reads lexicon (accept "," true) [',']
          (statesChars (s' :: states) ++ ']' :: follow) true :=
        reads_accept hb.margin (by decide) fun _ c hc => by cases hc; decide
      obtain ⟨-, rfl⟩ := haccept.eq_of_ok hcomma hl hbehind
      have hothers : ((t.advance (stateText s).toList.length).advance [','].length).rest = _ :=
        Scanner.rest_advance_of_append hbehind
      exact List.forall_mem_cons.2 ⟨hlegible, ih hl hb hothers.symm⟩

theorem legible_of_itemsThrough {states : List (String × StateValue)}
    (h : itemsThrough scanState "]" t = .ok states t') (hl : t.lexicon = lexicon)
    (ht : statesChars states ++ ']' :: follow = t.rest) : ∀ s ∈ states, Legible s := by
  obtain ⟨closed, t₁, hclosed, h₁⟩ := bind_eq_ok_iff.1 h
  cases closed with
  | true =>
    cases h₁
    exact List.forall_mem_nil _
  | false =>
    rw [accept_eq (by decide)] at hclosed
    split at hclosed
    · cases hclosed
    · cases hclosed
      obtain ⟨b, hb, hrest, -, -⟩ := t.exists_skipBlanks
      rw [hl] at hb
      exact legible_of_separated (commaSeparated_eq_ok_iff.1 h₁) hl hb (ht.trans hrest)

theorem Legible.item (hs : Legible s) (n : Nat) :
    ReadsItem lexicon scanState ']' Ends n [(stateText s).toList] s where
  begins := by
    cases hkey : s.1.toList with
    | nil => exact absurd hkey hs.key.ne_nil
    | cons c w =>
      have hc := hs.key.chars c (by rw [hkey]; exact List.mem_cons_self)
      refine ⟨c, w ++ '=' :: (toString s.2).toList, [], ?_, hc.1, ?_⟩
      · rw [toList_stateText, hkey, List.cons_append]
      · rintro rfl
        exact hc.2.1 (by decide)
  reads text follow hends ht _ := by
    obtain ⟨b, hb, rfl⟩ := ht.singleton
    exact hs.reads hb hends

theorem reads_states {states : List (String × StateValue)} (h : ∀ s ∈ states, Legible s) :
    Reads lexicon (itemsThrough scanState "]") (statesChars states ++ [']']) follow states := by
  let parts := states.map fun s => [(stateText s).toList]
  have hitems : List.Forall₂ (ReadsItem lexicon scanState ']' Ends
      ((statesChars states ++ [']']) ++ follow).length) parts states :=
    List.forall₂_map_left_iff.2 (List.forall₂_same.2 fun s hs => (h s hs).item _)
  have hspaced : Spaced lexicon (joined parts ++ [[']']]) (statesChars states ++ [']']) := by
    have hflat : Spaced lexicon (joined parts ++ [[']']]) _ := spaced_flatten _
    simpa [statesChars, parts] using hflat
  exact reads_itemsThrough rfl (by decide) (by decide) (by decide) ends_of_mark hitems hspaced
    (Nat.le_refl _)

end

/-! ## Predicates -/

section

variable {p : BlockPredicate} {text : String} {t t' : Scanner} {follow : List Char}

theorem toList_toString (p : BlockPredicate) : (toString p).toList = p.id.toList ++
    if p.states.isEmpty then [] else '[' :: (statesChars p.states ++ [']']) := by
  change p.toString.toList = _
  unfold BlockPredicate.toString
  split
  · simp
  · simp [statesChars, flatten_joined, String.toList_intercalate, Function.comp_def]

theorem bare_id_of_parse (h : parse text = .ok p) :
    Bare ['['] p.id.toList ∧ qualify p.id = p.id := by
  obtain ⟨t, h⟩ := run_eq_ok_iff.1 h
  obtain ⟨_, t₁, hskip, h₁⟩ := bind_eq_ok_iff.1 h
  obtain ⟨id, t₂, hid, h₂⟩ := bind_eq_ok_iff.1 h₁
  obtain ⟨states, t₃, -, h₃⟩ := bind_eq_ok_iff.1 h₂
  obtain ⟨_, t₄, -, h₄⟩ := bind_eq_ok_iff.1 h₃
  cases hskip
  cases h₄
  exact ⟨(bare_of_unquoted rfl hid).qualify, qualify_qualify id⟩

theorem reads_scanStates (h : ∀ s ∈ p.states, Legible s) :
    Reads lexicon scanStates
      (if p.states.isEmpty then [] else '[' :: (statesChars p.states ++ [']'])) [] p.states := by
  split
  · next hempty =>
    rw [List.isEmpty_iff.1 hempty]
    have haccept : Reads lexicon (accept "[" true) [] [] false :=
      reads_accept_none (lexicon.margin_nil true) (by decide) (fun _ => nofun) (by decide)
    exact haccept.bind_nil (reads_pure [])
  · have haccept : Reads lexicon (accept "[" true) ['['] (statesChars p.states ++ [']'] ++ [])
        true :=
      reads_accept (lexicon.margin_nil true) (by decide) fun _ c hc => by cases hc; decide
    exact haccept.bind (reads_states h)

theorem reads_id (hid : Bare ['['] p.id.toList) (h : ∀ c ∈ follow.head?, c = '[') :
    Reads lexicon (unquoted ['[']) p.id.toList follow p.id := by
  have hread : Reads lexicon (unquoted ['[']) p.id.toList follow (String.ofList p.id.toList) :=
    reads_unquoted hid.ne_nil hid.chars fun c hc => .inr (List.mem_singleton.2 (h c hc))
  rwa [String.ofList_toList] at hread

theorem head_states (states : List (String × StateValue)) :
    ∀ c ∈ (if states.isEmpty then [] else '[' :: (statesChars states ++ [']'])).head?, c = '[' := by
  intro c hc
  split at hc
  · cases hc
  · cases hc
    rfl

theorem reads_toString (hid : Bare ['['] p.id.toList) (hq : qualify p.id = p.id)
    (h : ∀ s ∈ p.states, Legible s) : Reads lexicon scan (toString p).toList [] p := by
  rw [toList_toString]
  have hskip := reads_skipBlanks (lexicon.margin_nil true).1 (hid.solid
    ((if p.states.isEmpty then [] else '[' :: (statesChars p.states ++ [']'])) ++ []))
  rw [← List.append_assoc] at hskip
  have hend : ∀ c ∈ ((if p.states.isEmpty then [] else
      '[' :: (statesChars p.states ++ [']'])) ++ []).head?, c = '[' := by
    rw [List.append_nil]
    exact head_states p.states
  refine hskip.bind_nil (Reads.bind (reads_id hid hend) ?_)
  refine Reads.bind_pure (reads_scanStates h) ?_
  refine Reads.bind_nil (reads_expectEnd (lexicon.margin_nil true).1) ?_
  rw [hq]
  exact reads_pure p

theorem legible_of_parse_toString (hid : Bare ['['] p.id.toList)
    (h : parse (toString p) = .ok p) : ∀ s ∈ p.states, Legible s := by
  obtain ⟨t, h⟩ := run_eq_ok_iff.1 h
  obtain ⟨_, t₁, hskip, h₁⟩ := bind_eq_ok_iff.1 h
  obtain ⟨id, t₂, hname, h₂⟩ := bind_eq_ok_iff.1 h₁
  obtain ⟨states, t₃, hstates, h₃⟩ := bind_eq_ok_iff.1 h₂
  obtain ⟨_, t₄, -, h₄⟩ := bind_eq_ok_iff.1 h₃
  obtain rfl : states = p.states := by
    cases h₄
    rfl
  have ht : (Scanner.ofText lexicon (toString p)).rest = _ := toList_toString p
  split at ht
  · next hempty =>
    rw [List.isEmpty_iff.1 hempty]
    exact List.forall_mem_nil _
  · have hsolid := hid.solid ('[' :: (statesChars p.states ++ [']']))
    obtain ⟨-, rfl⟩ :=
      (reads_skipBlanks (lexicon.margin_nil true).1 hsolid).eq_of_ok hskip rfl ht
    rw [List.length_nil, Scanner.advance_zero] at hname
    have hmark : ∀ c ∈ ('[' :: (statesChars p.states ++ [']'])).head?, c = '[' :=
      fun c hc => (Option.some.inj hc).symm
    obtain ⟨-, rfl⟩ := (reads_id hid hmark).eq_of_ok hname rfl ht
    have hbracket := Scanner.rest_advance_of_append ht
    obtain ⟨opened, t₅, hopened, hitems⟩ := bind_eq_ok_iff.1 hstates
    have haccept : Reads lexicon (accept "[" true) ['['] (statesChars p.states ++ [']']) true :=
      reads_accept (lexicon.margin_nil true) (by decide) fun _ c hc => by cases hc; decide
    obtain ⟨rfl, rfl⟩ := haccept.eq_of_ok hopened rfl hbracket
    exact legible_of_itemsThrough hitems rfl (Scanner.rest_advance_of_append hbracket).symm

end

/-- A predicate that was read is read back from its text exactly if none of its keys has to
be quoted and none of its texts holds a quote or a backslash. -/
theorem parse_toString_iff {text : String} {p : BlockPredicate} (h : parse text = .ok p) :
    parse (toString p) = .ok p ↔ ∀ s ∈ p.states, Legible s := by
  obtain ⟨hid, hq⟩ := bare_id_of_parse h
  constructor
  · exact legible_of_parse_toString hid
  · intro hlegible
    have hread := reads_toString hid hq hlegible
    exact run_eq_ok_iff.2 ⟨_, hread _ rfl (List.append_nil _).symm⟩

theorem parse_toString_stairs :
    ∃ p, parse "oak_stairs[\"facing\":\"north east\", half=bottom,waterlogged=false , age=-7 ]" =
        .ok p ∧ parse (toString p) = .ok p ∧ ∀ s ∈ p.states, Legible s := by
  have hread : (parse
      "oak_stairs[\"facing\":\"north east\", half=bottom,waterlogged=false , age=-7 ]").toOption.any
        fun p => (parse (toString p)).toOption.any (· = p) := by
    decide +kernel
  obtain ⟨p, hp, hback⟩ := exists_ok_of_any hread
  obtain ⟨p', hback, heq⟩ := exists_ok_of_any hback
  obtain rfl := of_decide_eq_true heq
  exact ⟨p', hp, hback, (parse_toString_iff hp).1 hback⟩

/-- A key with a blank in it is written without the quotes it was read from. -/
theorem quoted_key_lost :
    ∃ p, parse "chest[\"a b\"=1]" = .ok p ∧ parse (toString p) ≠ .ok p := by
  have hlost : (parse "chest[\"a b\"=1]").toOption.any
      fun p => (parse (toString p)).toOption ≠ some p := by
    decide +kernel
  obtain ⟨p, hp, hne⟩ := exists_ok_of_any hlost
  refine ⟨p, hp, fun hback => ?_⟩
  rw [hback] at hne
  simp [Except.toOption] at hne

end BlockPredicate

end CommandChain
