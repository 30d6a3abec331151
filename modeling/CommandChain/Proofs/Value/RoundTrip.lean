import CommandChain.Proofs.Value.Float

/-!
# Values read back

The text of a value is a row of tokens, brackets and commas among them
(`flatten_tokens`). With blanks before any of the tokens it is read as a value
equal to the one written (`exists_readsAs`), if ranges in it have a bound and the
numbers in it that are not integers are read back from their own texts
(`Legible`). The induction is on the value: what is inside brackets is read by the
same reader, on a shorter text.
-/

namespace CommandChain.ArgValue

open Scan

/-! ## Tokens -/

mutual

/-- The tokens of a value's text. -/
def tokens : ArgValue → List (List Char)
  | map entries => ['{'] :: (joined (entryTokens entries) ++ [['}']])
  | list items => ['['] :: (joined (itemTokens items) ++ [[']']])
  | bool b => [(ArgValue.bool b).toString.toList]
  | int i => [(ArgValue.int i).toString.toList]
  | float x => [(ArgValue.float x).toString.toList]
  | range r => [(ArgValue.range r).toString.toList]
  | relative x => [(ArgValue.relative x).toString.toList]
  | text s => [(ArgValue.text s).toString.toList]

def entryTokens : List (Entry ArgValue) → List (List (List Char))
  | [] => []
  | ⟨key, inverted, value⟩ :: rest =>
    ((quoteText key).toList :: ['='] :: ((if inverted then [['!']] else []) ++ value.tokens)) ::
      entryTokens rest

def itemTokens : List ArgValue → List (List (List Char))
  | [] => []
  | value :: rest => value.tokens :: itemTokens rest

end

mutual

theorem flatten_tokens : (v : ArgValue) → v.tokens.flatten = v.toString.toList
  | map entries => by
    rw [tokens, ArgValue.toString, List.flatten_cons, List.flatten_append, flatten_joined,
      flatten_entryTokens entries]
    simp [String.toList_intercalate]
  | list items => by
    rw [tokens, ArgValue.toString, List.flatten_cons, List.flatten_append, flatten_joined,
      flatten_itemTokens items]
    simp [String.toList_intercalate]
  | bool _ | int _ | float _ | range _ | relative _ | text _ => by simp [tokens]

theorem flatten_entryTokens : (entries : List (Entry ArgValue)) →
    (entryTokens entries).map List.flatten = (entryTexts entries).map String.toList
  | [] => rfl
  | ⟨key, inverted, value⟩ :: rest => by
    rw [entryTokens, entryTexts, List.map_cons, List.map_cons, flatten_entryTokens rest]
    cases inverted <;> simp [flatten_tokens value]

theorem flatten_itemTokens : (items : List ArgValue) →
    (itemTokens items).map List.flatten = (itemTexts items).map String.toList
  | [] => rfl
  | value :: rest => by
    rw [itemTokens, itemTexts, List.map_cons, List.map_cons, flatten_itemTokens rest,
      flatten_tokens value]

end

/-! ## Reading tokens -/

/-- The first token begins a value. -/
def Leads (tokens : List (List Char)) : Prop :=
  ∃ c word rest, tokens = (c :: word) :: rest ∧ c ∉ lexicon.whitespace ∧ c ∉ [',', ']', '}', '!']

theorem Leads.begins {tokens : List (List Char)} (h : Leads tokens) {mark : Char}
    (hm : mark ∈ [',', ']', '}', '!']) : Begins lexicon mark tokens := by
  obtain ⟨c, word, rest, htokens, hblank, hc⟩ := h
  exact ⟨c, word, rest, htokens, hblank, fun he => hc (he ▸ hm)⟩

/-- Spaced tokens are read as the value. -/
structure ReadsAs (tokens : List (List Char)) (v : ArgValue) : Prop where
  leads : Leads tokens
  reads : ∀ text follow, Ends follow → Spaced lexicon tokens text →
    Reads lexicon ArgValue.scan text follow v

theorem ends_of_head {b : List Char} (hb : lexicon.Blanks b) {c : Char} (hc : c ∈ stops)
    (rest : List Char) : Ends (b ++ c :: rest) := by
  cases b with
  | nil => intro c' hc'; cases hc'; exact .inr hc
  | cons c' b => intro c'' hc''; cases hc''; exact .inl (hb c' List.mem_cons_self)

/-- The word is read as the key of an entry. -/
structure ReadsAsKey (stops' : List Char) (word : List Char) (key : String) : Prop where
  head : ∃ c rest, word = c :: rest ∧ c ∉ lexicon.whitespace ∧ c ∉ [']', '}']
  reads : ∀ b follow, lexicon.Blanks b → (∀ c ∈ follow.head?, c ∈ lexicon.whitespace ∨ c ∈ stops') →
    Reads lexicon (Scan.string stops') (b ++ word) follow key

/-- The tokens of `key=value` or `key=!value`. -/
def occurrenceTokens (key : List Char) (inverted : Bool) (value : List (List Char)) :
    List (List Char) :=
  key :: ['='] :: ((if inverted then [['!']] else []) ++ value)

/-- The tokens of a key and of a value that is read from its own. -/
inductive EntryReadsAs (stops' : List Char) : List (List Char) → Entry ArgValue → Prop where
  | intro {word : List Char} {key : String} {inverted : Bool} {part : List (List Char)}
      {v : ArgValue} : ReadsAsKey stops' word key → ReadsAs part v →
    EntryReadsAs stops' (occurrenceTokens word inverted part) ⟨key, inverted, v⟩

section

variable {nested : Scan ArgValue} {n : Nat}
  (hnested : ∀ {text follow v}, Reads lexicon ArgValue.scan text follow v →
    (text ++ follow).length ≤ n → Reads lexicon nested text follow v)

include hnested

theorem ReadsAs.item {part : List (List Char)} {v : ArgValue} (h : ReadsAs part v) :
    ReadsItem lexicon nested ']' Ends n part v where
  begins := h.leads.begins (by decide)
  reads text follow hends hspaced := hnested (h.reads text follow hends hspaced)

/-- A value is read behind the mark of inversion, or where that is missing. -/
theorem ReadsAs.inverted {part : List (List Char)} {v : ArgValue} (h : ReadsAs part v)
    {key : String} {inverted : Bool} {text follow : List Char} (hends : Ends follow)
    (ht : Spaced lexicon ((if inverted then [['!']] else []) ++ part) text)
    (hn : (text ++ follow).length ≤ n) :
    Reads lexicon (accept "!" true >>= fun inverted => return ⟨key, inverted, ← nested⟩)
      text follow (⟨key, inverted, v⟩ : Entry ArgValue) := by
  cases inverted with
  | true =>
    obtain _ | @⟨b, _, value, _, hb, ht⟩ := ht
    have haccept : Reads lexicon (accept "!" true) (b ++ "!".toList) (value ++ follow) true :=
      reads_accept hb.margin (by decide) fun _ c hc => by cases hc; decide
    have hlen : (value ++ follow).length ≤ n := by
      simp only [List.length_append] at hn ⊢
      omega
    have hvalue := hnested (h.reads value follow hends ht) hlen
    rw [← List.append_assoc]
    exact haccept.bind (hvalue.bind_pure (reads_pure _))
  | false =>
    obtain ⟨c, word, tokens, hpart, hblank, hc⟩ := h.leads
    have hspaced := ht
    rw [hpart] at hspaced
    obtain _ | @⟨b, _, rest, _, hb, hspaced⟩ := hspaced
    have hno : ¬ "!".toList <+: c :: word ++ rest ++ follow := by
      have hne : '!' ≠ c := fun he => hc (he ▸ by decide)
      simpa [List.cons_prefix_cons] using hne
    have haccept : Reads lexicon (accept "!" true) b (c :: word ++ rest ++ follow) false :=
      reads_accept_none hb.margin (by decide) (fun _ c' hc' => by cases hc'; exact hblank) hno
    have hvalue : Reads lexicon nested (c :: word ++ rest) follow v := by
      refine hnested (h.reads _ follow hends ?_) ?_
      · rw [hpart]
        exact .cons (b := []) (lexicon.margin_nil true).1 hspaced
      · simp only [List.length_append] at hn ⊢
        omega
    exact haccept.bind (hvalue.bind_pure (reads_pure _))

theorem EntryReadsAs.item {stops' : List Char} {mark : Char} {part : List (List Char)}
    {e : Entry ArgValue} (h : EntryReadsAs stops' part e) (hequal : '=' ∈ stops')
    (hmark : mark ∈ [']', '}']) :
    ReadsItem lexicon (Entry.scan stops' nested) mark Ends n part e := by
  obtain @⟨word, key, inverted, part, v, hkey, hv⟩ := h
  constructor
  · obtain ⟨c, rest, rfl, hblank, hc⟩ := hkey.head
    exact ⟨c, rest, _, rfl, hblank, fun he => hc (he ▸ hmark)⟩
  · intro text follow hends ht hn
    obtain _ | @⟨b, _, _, _, hb, ht⟩ := ht
    obtain _ | @⟨b', _, rest, _, hb', ht⟩ := ht
    have hkey : Reads lexicon (Scan.string stops') (b ++ word)
        (b' ++ "=".toList ++ rest ++ follow) key := by
      refine hkey.reads b _ hb fun c hc => ?_
      cases b' with
      | nil => cases hc; exact .inr hequal
      | cons c' b' => cases hc; exact .inl (hb' c List.mem_cons_self)
    have hexpect : Reads lexicon (expect "=" true) (b' ++ "=".toList) (rest ++ follow) () :=
      reads_expect hb'.margin (by decide) fun _ c hc => by cases hc; decide
    have hlen : (rest ++ follow).length ≤ n := by
      simp only [List.length_append] at hn ⊢
      omega
    have htext : b ++ (word ++ (b' ++ (['='] ++ rest))) =
        (b ++ word) ++ ((b' ++ "=".toList) ++ rest) := by
      simp
    rw [htext]
    exact hkey.bind (hexpect.bind (hv.inverted hnested hends ht hlen))

end

/-! ## Values without parts -/

/-- A value is read from its first character on, with the values inside it on shorter
texts. -/
theorem readsAs_of_scanFrom {c : Char} {w : List Char} {rest : List (List Char)} {v : ArgValue}
    (hblank : c ∉ lexicon.whitespace) (hc : c ∉ [',', ']', '}', '!'])
    (h : ∀ (t : Scanner) (text follow : List Char), Ends follow → Spaced lexicon rest text →
      (c :: w ++ text ++ follow).length ≤ t.rest.length →
      Reads lexicon (scanFrom (beyond t fun u _ => ArgValue.scan u) c) (c :: w ++ text) follow v) :
    ReadsAs ((c :: w) :: rest) v where
  leads := ⟨c, w, rest, rfl, hblank, hc⟩
  reads text follow hends hspaced := by
    obtain _ | @⟨b, _, text, _, hb, hspaced⟩ := hspaced
    intro t hl ht
    have hpeek : Reads lexicon (peek true) b (c :: w ++ text ++ follow) (some c) :=
      reads_peek hb.margin fun _ c' hc' => by cases hc'; exact hblank
    have hlen : (c :: w ++ text ++ follow).length ≤ t.rest.length := by
      rw [ht]
      simp only [List.length_append]
      omega
    rw [ArgValue.scan, scanWith_eq]
    exact hpeek.bind (h t text follow hends hspaced hlen) t hl ht

theorem readsAs_word {c : Char} {w : List Char} {v : ArgValue}
    (hblank : c ∉ lexicon.whitespace) (hc : c ∉ [',', ']', '}', '!'])
    (h : ∀ nested follow, Ends follow → Reads lexicon (scanFrom nested c) (c :: w) follow v) :
    ReadsAs [c :: w] v :=
  readsAs_of_scanFrom hblank hc fun t text follow hends hspaced _ => by
    cases hspaced
    rw [List.append_nil]
    exact h _ follow hends

/-- A token that begins like a bare string or a number. -/
theorem readsAs_token {word : List Char} {v : ArgValue}
    (hhead : ∃ c w, word = c :: w ∧ Plain c)
    (h : ∀ follow, Ends follow → Reads lexicon token word follow v) : ReadsAs [word] v := by
  obtain ⟨c, w, rfl, hblank, hc⟩ := hhead
  have hmarks : [',', ']', '}', '!'] ⊆ quoteTriggers := by decide
  have hbranches : ['{', '[', '"', '~'] ⊆ quoteTriggers := by decide
  refine readsAs_word hblank (fun hm => hc (hmarks hm)) fun nested follow hends => ?_
  rw [scanFrom_eq_token nested fun hm => hc (hbranches hm)]
  exact h follow hends

theorem readsAs_bool (b : Bool) : ReadsAs [(toString b).toList] (bool b) := by
  refine readsAs_token ?_ fun _ => reads_token_bool b
  cases b
  · exact ⟨'f', ['a', 'l', 's', 'e'], rfl, by decide, by decide⟩
  · exact ⟨'t', ['r', 'u', 'e'], rfl, by decide, by decide⟩

theorem readsAs_int (i : Int64) : ReadsAs [(toString i).toList] (int i) := by
  refine readsAs_token ?_ fun _ => reads_token_int i
  obtain ⟨c, w, hcw, hc⟩ := head_int i
  exact ⟨c, w, hcw, plain_of_startsNumber hc⟩

theorem readsAs_range {r : IntRange} (hr : r.Bounded) :
    ReadsAs [(toString r).toList] (range r) := by
  refine readsAs_token ?_ fun _ => reads_token_range hr
  rw [toList_range]
  cases r.min with
  | none => exact ⟨'.', _, rfl, by decide, by decide⟩
  | some i =>
    obtain ⟨c, w, hcw, hc⟩ := head_int i
    refine ⟨c, w ++ ('.' :: '.' :: boundText r.max), ?_, plain_of_startsNumber hc⟩
    simp [boundText, hcw]

theorem readsAs_text (s : String) : ReadsAs [(quoteText s).toList] (text s) := by
  rw [toList_quoteText]
  cases hq : needsQuotes s.toList with
  | true =>
    refine readsAs_word (by decide) (by decide) fun _ follow _ => ?_
    have hquoted := reads_quoted s.toList follow
    rw [String.ofList_toList] at hquoted
    exact hquoted.map
  | false =>
    have hbare := bare_of_needsQuotes hq
    refine readsAs_token ?_ fun follow hends => ?_
    · cases hs : s.toList with
      | nil => exact absurd hs hbare.ne_nil
      | cons c w => exact ⟨c, w, rfl, hbare.chars c (by rw [hs]; exact List.mem_cons_self)⟩
    · have htext := reads_token_bare hbare hends
      rwa [String.ofList_toList] at htext

theorem exists_readsAs_float {x : Float} (hx : ReadsBack (float x)) :
    ∃ x', float x' == float x ∧ ReadsAs [(floatText x).toList] (float x') := by
  obtain ⟨x', heq, ⟨c, w, hcw, hc⟩, hreads⟩ := reads_token_float hx
  exact ⟨x', heq, readsAs_token ⟨c, w, hcw, plain_of_startsNumber hc⟩ hreads⟩

theorem exists_readsAs_relative {x : Float} (hx : ReadsBack (relative x)) :
    ∃ x', relative x' == relative x ∧
      ReadsAs [(toString (relative x)).toList] (relative x') := by
  obtain ⟨x', heq, ⟨w, hw⟩, hreads⟩ := reads_relative hx
  rw [hw] at hreads ⊢
  exact ⟨x', heq, readsAs_word (by decide) (by decide) fun _ => hreads⟩

/-! ## Values in brackets -/

theorem ends_of_mark {mark : Char} (hmark : mark ∈ stops) (b : List Char) (c : Char)
    (rest : List Char) (hb : lexicon.Blanks b) (hc : c = ',' ∨ c = mark) :
    Ends (b ++ c :: rest) := by
  refine ends_of_head hb ?_ rest
  rcases hc with rfl | rfl
  · decide
  · exact hmark

/-- A key is read back, bare or quoted. -/
theorem readsAsKey_quoteText {stops' : List Char} (hstops : stops' ⊆ quoteTriggers)
    (key : String) : ReadsAsKey stops' (quoteText key).toList key where
  head := by
    obtain ⟨c, rest, hkey, hblank, hc⟩ := head_quoteText key
    refine ⟨c, rest, hkey, hblank, fun hmark => ?_⟩
    have htriggers : [']', '}'] ⊆ quoteTriggers := by decide
    rcases hc with rfl | hc
    · exact absurd hmark (by decide)
    · exact hc (htriggers hmark)
  reads _ _ hb hend := reads_string hb hstops hend key

/-- Inside brackets a reader of values works on a shorter text. -/
theorem reads_nested {t : Scanner} {mark : Char} {text follow : List Char}
    (hlen : (mark :: text ++ follow).length ≤ t.rest.length) {text' follow' : List Char}
    {v : ArgValue} (h : Reads lexicon ArgValue.scan text' follow' v)
    (hless : (text' ++ follow').length ≤ (text ++ follow).length) :
    Reads lexicon (beyond t fun u _ => ArgValue.scan u) text' follow' v := by
  refine reads_beyond h ?_
  simp only [List.cons_append, List.length_cons] at hlen
  omega

theorem readsAs_list {parts : List (List (List Char))} {items : List ArgValue}
    (h : List.Forall₂ ReadsAs parts items) :
    ReadsAs (['['] :: (joined parts ++ [[']']])) (list items) := by
  refine readsAs_of_scanFrom (by decide) (by decide) fun t text follow _ hspaced hlen => ?_
  have hopen : Reads lexicon (expect "[" true) ['['] (text ++ follow) () :=
    reads_expect (lexicon.margin_nil true) (by decide) fun _ c hc => by cases hc; decide
  have hitems : List.Forall₂ (ReadsItem lexicon (beyond t fun u _ => ArgValue.scan u) ']' Ends
      (text ++ follow).length) parts items :=
    h.imp fun _ _ hpart => hpart.item (reads_nested hlen)
  exact (Reads.bind hopen (reads_itemsThrough rfl (by decide) (by decide) (by decide)
    (ends_of_mark (by decide)) hitems hspaced (Nat.le_refl _))).map

theorem readsAs_map {parts : List (List (List Char))} {entries : List (Entry ArgValue)}
    (h : List.Forall₂ (EntryReadsAs ['=', ',', '}']) parts entries) :
    ReadsAs (['{'] :: (joined parts ++ [['}']])) (map entries) := by
  refine readsAs_of_scanFrom (by decide) (by decide) fun t text follow _ hspaced hlen => ?_
  have hopen : Reads lexicon (expect "\x7b" true) ['{'] (text ++ follow) () :=
    reads_expect (lexicon.margin_nil true) (by decide) fun _ c hc => by cases hc; decide
  have hitems : List.Forall₂ (ReadsItem lexicon
      (Entry.scan ['=', ',', '}'] (beyond t fun u _ => ArgValue.scan u)) '}' Ends
      (text ++ follow).length) parts entries :=
    h.imp fun _ _ hpart => hpart.item (reads_nested hlen) (by decide) (by decide)
  exact (Reads.bind hopen (reads_itemsThrough rfl (by decide) (by decide) (by decide)
    (ends_of_mark (by decide)) hitems hspaced (Nat.le_refl _))).map

/-! ## Every value -/

/-- The value is made of leaves that are read back. -/
structure Legible (v : ArgValue) : Prop where
  ranges : ∀ r, range r ∈ v.leaves → r.Bounded
  numbers : ∀ leaf ∈ v.leaves, leaf.isFractional → ReadsBack leaf

theorem Legible.of_subset {v w : ArgValue} (h : w.Legible) (hs : v.leaves ⊆ w.leaves) :
    v.Legible where
  ranges r hr := h.ranges r (hs hr)
  numbers leaf hleaf := h.numbers leaf (hs hleaf)

theorem Legible.of_entries {entries : List (Entry ArgValue)} (h : (map entries).Legible)
    {e : Entry ArgValue} (he : e ∈ entries) : e.value.Legible :=
  h.of_subset fun _ hleaf => mem_entryLeaves.2 ⟨e, he, hleaf⟩

theorem Legible.of_items {items : List ArgValue} (h : (list items).Legible) {v : ArgValue}
    (hv : v ∈ items) : v.Legible :=
  h.of_subset fun _ hleaf => mem_itemLeaves.2 ⟨v, hv, hleaf⟩

mutual

/-- A legible value is read from its spaced tokens as a value equal to it. -/
theorem exists_readsAs : (v : ArgValue) → v.Legible → ∃ v', v' == v ∧ ReadsAs v.tokens v'
  | map entries, h => by
    obtain ⟨entries', heq, hread⟩ := exists_entriesReadAs entries fun e he => h.of_entries he
    exact ⟨map entries', heq, readsAs_map hread⟩
  | list items, h => by
    obtain ⟨items', heq, hread⟩ := exists_itemsReadAs items fun v hv => h.of_items hv
    exact ⟨list items', heq, readsAs_list hread⟩
  | bool b, _ => ⟨bool b, beq_self_eq_true b, readsAs_bool b⟩
  | int i, _ => ⟨int i, beq_self_eq_true i, readsAs_int i⟩
  | float x, h => by
    obtain ⟨x', heq, hread⟩ := exists_readsAs_float (h.numbers _ List.mem_cons_self rfl)
    exact ⟨float x', heq, hread⟩
  | range r, h => ⟨range r, beq_self_eq_true r, readsAs_range (h.ranges r List.mem_cons_self)⟩
  | relative x, h => by
    obtain ⟨x', heq, hread⟩ := exists_readsAs_relative (h.numbers _ List.mem_cons_self rfl)
    exact ⟨relative x', heq, hread⟩
  | text s, _ => ⟨text s, beq_self_eq_true s, readsAs_text s⟩

theorem exists_entriesReadAs : (entries : List (Entry ArgValue)) →
    (∀ e ∈ entries, e.value.Legible) →
    ∃ entries', beqEntries entries' entries ∧
      List.Forall₂ (EntryReadsAs ['=', ',', '}']) (entryTokens entries) entries'
  | [], _ => ⟨[], rfl, .nil⟩
  | ⟨key, inverted, value⟩ :: rest, h => by
    obtain ⟨value', hvalue, hread⟩ := exists_readsAs value (h _ List.mem_cons_self)
    obtain ⟨rest', hrest, hreads⟩ := exists_entriesReadAs rest fun e he => h e (.tail _ he)
    have hkey : ReadsAsKey ['=', ',', '}'] (quoteText key).toList key :=
      readsAsKey_quoteText (by decide) key
    have hentry : EntryReadsAs ['=', ',', '}']
        (occurrenceTokens (quoteText key).toList inverted value.tokens) ⟨key, inverted, value'⟩ :=
      .intro hkey hread
    refine ⟨⟨key, inverted, value'⟩ :: rest', ?_, .cons hentry hreads⟩
    have hvalue : value'.beq value = true := hvalue
    simp [beqEntries, hvalue, hrest]

theorem exists_itemsReadAs : (items : List ArgValue) → (∀ v ∈ items, v.Legible) →
    ∃ items', beqItems items' items ∧ List.Forall₂ ReadsAs (itemTokens items) items'
  | [], _ => ⟨[], rfl, .nil⟩
  | value :: rest, h => by
    obtain ⟨value', hvalue, hread⟩ := exists_readsAs value (h _ List.mem_cons_self)
    obtain ⟨rest', hrest, hreads⟩ := exists_itemsReadAs rest fun v hv => h v (.tail _ hv)
    refine ⟨value' :: rest', ?_, .cons hread hreads⟩
    have hvalue : value'.beq value = true := hvalue
    simp [beqItems, hvalue, hrest]

end

end CommandChain.ArgValue
