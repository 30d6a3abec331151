import CommandChain.Proofs.Scanner.Basic
import Mathlib.Data.List.Forall2
import Mathlib.Data.List.TakeWhile

/-!
# What readers read

`Scan.Reads x text follow a` says that `x` takes `text` for `a` where `follow`
comes next, and stops between the two. Readers that stand one behind the other
read their texts one behind the other (`Reads.bind`); the lemmas below give the
texts of the shared tokens, and of lists of items between commas.

Blanks may stand before a token. `Spaced` is the text of some tokens with blanks
put before each of them.
-/

namespace CommandChain

namespace Scanner

theorem advance_zero (t : Scanner) : t.advance 0 = t := by
  simp [advance]

theorem advance_advance (t : Scanner) (m n : Nat) :
    (t.advance m).advance n = t.advance (m + n) := by
  simp only [advance, List.take_add, List.reverse_append, List.append_assoc, List.drop_drop]

theorem rest_advance_of_append {t : Scanner} {text follow : List Char}
    (h : t.rest = text ++ follow) : (t.advance text.length).rest = follow := by
  rw [rest_advance, h, List.drop_left]

/-- `t'` is `t` with the cursor moved over `w`. -/
def Passes (t : Scanner) (w : List Char) (t' : Scanner) : Prop :=
  w <+: t.rest ∧ t' = t.advance w.length

theorem passes_nil (t : Scanner) : t.Passes [] t := ⟨List.nil_prefix, t.advance_zero.symm⟩

theorem Passes.trans {t t' t'' : Scanner} {w w' : List Char} (h : t.Passes w t')
    (h' : t'.Passes w' t'') : t.Passes (w ++ w') t'' := by
  obtain ⟨⟨rest, hrest⟩, rfl⟩ := h
  obtain ⟨hw', rfl⟩ := h'
  rw [rest_advance_of_append hrest.symm] at hw'
  refine ⟨?_, ?_⟩
  · rw [← hrest]
    exact (List.prefix_append_right_inj w).2 hw'
  · rw [advance_advance, List.length_append]

end Scanner

namespace Lexicon

/-- The characters are blank. -/
def Blanks (lexicon : Lexicon) (b : List Char) : Prop := ∀ c ∈ b, c ∈ lexicon.whitespace

/-- The text does not begin with a blank. -/
def Solid (lexicon : Lexicon) (text : List Char) : Prop := ∀ c ∈ text.head?, c ∉ lexicon.whitespace

/-- Blanks that a reader passes, none unless `skip` is set. -/
def Margin (lexicon : Lexicon) (skip : Bool) (b : List Char) : Prop :=
  lexicon.Blanks b ∧ (skip = false → b = [])

theorem margin_nil (lexicon : Lexicon) (skip : Bool) : lexicon.Margin skip [] :=
  ⟨fun _ h => (List.not_mem_nil h).elim, fun _ => rfl⟩

theorem Blanks.margin {lexicon : Lexicon} {b : List Char} (h : lexicon.Blanks b) :
    lexicon.Margin true b :=
  ⟨h, fun hf => Bool.noConfusion hf⟩

theorem Solid.append {lexicon : Lexicon} {text : List Char} (h : lexicon.Solid text)
    (hne : text ≠ []) (follow : List Char) : lexicon.Solid (text ++ follow) := by
  cases text with
  | nil => exact absurd rfl hne
  | cons c text => exact h

theorem Blanks.takeWhile_append {lexicon : Lexicon} {b rest : List Char} (hb : lexicon.Blanks b)
    (hs : lexicon.Solid rest) : (b ++ rest).takeWhile lexicon.whitespace.contains = b := by
  have hblank : ∀ c ∈ b, lexicon.whitespace.contains c :=
    fun c hc => List.contains_iff_mem.2 (hb c hc)
  rw [List.takeWhile_append_of_pos hblank]
  cases rest with
  | nil => simp
  | cons c rest =>
    rw [List.takeWhile_cons_of_neg, List.append_nil]
    exact fun hc => hs c rfl (List.contains_iff_mem.1 hc)

theorem Blanks.eq_nil {lexicon : Lexicon} {b rest : List Char} (hb : lexicon.Blanks b)
    (hs : lexicon.Solid (b ++ rest)) : b = [] := by
  cases b with
  | nil => rfl
  | cons c b => exact absurd (hb c List.mem_cons_self) (hs c rfl)

/-- A text tells which blanks it begins with. -/
theorem Blanks.append_inj {lexicon : Lexicon} {b b' rest rest' : List Char}
    (hb : lexicon.Blanks b) (hb' : lexicon.Blanks b') (hs : lexicon.Solid rest)
    (hs' : lexicon.Solid rest') (h : b ++ rest = b' ++ rest') : b = b' ∧ rest = rest' := by
  have htake := hb.takeWhile_append hs
  rw [h, hb'.takeWhile_append hs'] at htake
  subst htake
  exact ⟨rfl, List.append_cancel_left h⟩

end Lexicon

namespace Scanner

theorem skipBlanks_eq {t : Scanner} {b rest : List Char} (hb : t.lexicon.Blanks b)
    (hs : t.lexicon.Solid rest) (ht : t.rest = b ++ rest) : t.skipBlanks = t.advance b.length := by
  have htake : t.rest.takeWhile t.isBlank = b := by
    rw [ht]
    exact hb.takeWhile_append hs
  rw [skipBlanks, skipWhile, htake]

/-- The blanks that are skipped. -/
theorem exists_skipBlanks (t : Scanner) : ∃ b, t.lexicon.Blanks b ∧
    t.rest = b ++ t.skipBlanks.rest ∧ t.lexicon.Solid t.skipBlanks.rest ∧
      t.skipBlanks = t.advance b.length := by
  have hrest : t.skipBlanks.rest = t.rest.dropWhile t.isBlank := by
    rw [skipBlanks, rest_skipWhile]
  refine ⟨t.rest.takeWhile t.isBlank, ?_, ?_, ?_, rfl⟩
  · exact fun c hc => List.contains_iff_mem.1 (List.mem_takeWhile_imp hc)
  · rw [hrest]
    exact List.takeWhile_append_dropWhile.symm
  · rw [hrest]
    intro c hc hmem
    have hstop := List.head?_dropWhile_not t.isBlank t.rest
    rw [Option.mem_def.1 hc] at hstop
    exact absurd (List.contains_iff_mem.2 hmem) (by simpa [isBlank] using hstop)

theorem settled_eq {t : Scanner} {skip : Bool} {b rest : List Char}
    (hb : t.lexicon.Margin skip b) (hs : skip → t.lexicon.Solid rest) (ht : t.rest = b ++ rest) :
    t.settled skip = t.advance b.length := by
  cases skip with
  | true => exact skipBlanks_eq hb.1 (hs rfl) ht
  | false => rw [hb.2 rfl]; exact (advance_zero t).symm

end Scanner

namespace Scan

/-- Where the rest of a text begins with `text` and goes on with `follow`, the reader
consumes `text` and gives `a`. -/
def Reads {α : Type} (lexicon : Lexicon) (x : Scan α) (text follow : List Char) (a : α) : Prop :=
  ∀ t : Scanner, t.lexicon = lexicon → t.rest = text ++ follow →
    x t = .ok a (t.advance text.length)

section

variable {α β : Type} {lexicon : Lexicon} {x : Scan α} {text text' follow : List Char} {a : α}
  {b : β}

theorem Reads.eq_of_ok {t t' : Scanner} {a' : α} (hx : Reads lexicon x text follow a)
    (h : x t = .ok a' t') (hl : t.lexicon = lexicon) (ht : t.rest = text ++ follow) :
    a' = a ∧ t' = t.advance text.length :=
  EStateM.Result.ok.inj (h.symm.trans (hx t hl ht))

theorem Reads.bind {f : α → Scan β} (hx : Reads lexicon x text (text' ++ follow) a)
    (hf : Reads lexicon (f a) text' follow b) :
    Reads lexicon (x >>= f) (text ++ text') follow b := by
  intro t hl ht
  rw [List.append_assoc] at ht
  rw [bind_of_ok (hx t hl ht), hf (t.advance text.length) hl (Scanner.rest_advance_of_append ht),
    Scanner.advance_advance, List.length_append]

/-- A first reader that consumes nothing. -/
theorem Reads.bind_nil {f : α → Scan β} (hx : Reads lexicon x [] (text ++ follow) a)
    (hf : Reads lexicon (f a) text follow b) : Reads lexicon (x >>= f) text follow b :=
  hx.bind hf

/-- A second reader that consumes nothing. -/
theorem Reads.bind_pure {f : α → Scan β} (hx : Reads lexicon x text follow a)
    (hf : Reads lexicon (f a) [] follow b) : Reads lexicon (x >>= f) text follow b := by
  have h : Reads lexicon (x >>= f) (text ++ []) follow b := Reads.bind hx hf
  rwa [List.append_nil] at h

theorem reads_pure (a : α) : Reads lexicon (pure a) [] follow a := by
  intro t _ _
  rw [List.length_nil, Scanner.advance_zero]
  rfl

theorem Reads.map {f : α → β} (hx : Reads lexicon x text follow a) :
    Reads lexicon (f <$> x) text follow (f a) :=
  fun t hl ht => map_of_ok (hx t hl ht)

/-- A reader that begins by noting where it stands. -/
theorem Reads.get_bind {f : Scanner → Scan α}
    (h : ∀ t, t.lexicon = lexicon → t.rest = text ++ follow →
      f t t = .ok a (t.advance text.length)) :
    Reads lexicon (get >>= f) text follow a :=
  fun t hl ht => h t hl ht

theorem Reads.get_bind_any {f : Scanner → Scan α} (h : ∀ t, Reads lexicon (f t) text follow a) :
    Reads lexicon (get >>= f) text follow a :=
  fun t hl ht => h t t hl ht

/-! ## Tokens -/

section

variable {skip : Bool} {b : List Char}

theorem reads_peek (hb : lexicon.Margin skip b) (hs : skip → lexicon.Solid follow) :
    Reads lexicon (peek skip) b follow follow.head? := by
  rintro t rfl ht
  simp only [peek, Scanner.settled_eq hb hs ht]
  rw [Scanner.rest_advance_of_append ht]

theorem reads_skipBlanks (hb : lexicon.Blanks b) (hs : lexicon.Solid follow) :
    Reads lexicon skipBlanks b follow () := by
  rintro t rfl ht
  exact congrArg (EStateM.Result.ok ()) (Scanner.skipBlanks_eq hb hs ht)

theorem reads_peek_false : Reads lexicon (peek false) [] follow follow.head? := by
  intro t _ ht
  rw [List.length_nil, Scanner.advance_zero]
  exact congrArg (fun rest : List Char => EStateM.Result.ok rest.head? t) ht

theorem reads_next (c : Char) : Reads lexicon (next false) [c] follow (some c) := by
  intro t _ ht
  exact congrArg (fun rest : List Char => EStateM.Result.ok rest.head? (t.advance 1)) ht

theorem takeWhile_append_of_head {p : Char → Bool} (hp : ∀ c ∈ follow.head?, p c = false)
    (s : List Char) : (s ++ follow).takeWhile p = s.takeWhile p := by
  induction s with
  | nil =>
    cases follow with
    | nil => rfl
    | cons c follow => exact List.takeWhile_cons_of_neg (by simp [hp c rfl])
  | cons c s ih => simp only [List.cons_append, List.takeWhile_cons, ih]

theorem reads_takeWhile {p : Char → Bool} (h : ∀ c ∈ text, p c)
    (hend : ∀ c ∈ follow.head?, p c = false) :
    Reads lexicon (takeWhile p) text follow (String.ofList text) := by
  intro t _ ht
  have htake : t.rest.takeWhile p = text := by
    rw [ht, takeWhile_append_of_head hend, List.takeWhile_eq_self_iff.2 h]
  rw [takeWhile, Scanner.skipWhile, htake]

theorem longest_singleton {token : String} (h : token.toList ≠ []) (text : List Char) :
    longest [token] text = if token.toList.isPrefixOf text then some token else none := by
  have hne : token ≠ "" := by simpa using h
  by_cases hp : token.toList.isPrefixOf text
  · simp [longest, hne, hp]
  · simp [longest, hp]

/-- A word before `follow` that holds no character of the kind `follow` begins with stands at
the start of the text alone. -/
theorem prefix_of_append {P : Char → Prop} {word s follow : List Char}
    (hfollow : ∀ c ∈ follow.head?, P c) (hword : ∀ c ∈ word, ¬ P c)
    (hp : word <+: s ++ follow) : word <+: s := by
  rcases List.prefix_or_prefix_of_prefix hp (List.prefix_append s follow) with hws | ⟨x, rfl⟩
  · exact hws
  · cases x with
    | nil => exact ⟨[], by simp⟩
    | cons c x =>
      have hhead : follow.head? = some c := by
        obtain ⟨y, hy⟩ := (List.prefix_append_right_inj s).1 hp
        rw [← hy]
        rfl
      exact absurd (hfollow c hhead) (hword c (by simp))

theorem reads_testAny (words : List String) :
    Reads lexicon (testAny words false) [] follow (longest words follow) := by
  intro t _ ht
  rw [List.length_nil, Scanner.advance_zero]
  exact congrArg (fun rest => EStateM.Result.ok (longest words rest) t) ht

theorem accept_eq {token : String} (h : token.toList ≠ []) (skip : Bool) (t : Scanner) :
    accept token skip t =
      if token.toList.isPrefixOf (t.settled skip).rest then
        .ok true ((t.settled skip).advance token.length)
      else .ok false (t.settled skip) := by
  have hlongest := longest_singleton h (t.settled skip).rest
  unfold accept
  change (consumeAny [token] skip >>= _) t = _
  split
  · next hp =>
    rw [if_pos hp] at hlongest
    refine bind_of_ok (a := some token) ?_
    simp only [consumeAny, hlongest]
  · next hp =>
    rw [if_neg hp] at hlongest
    refine bind_of_ok (a := none) ?_
    simp only [consumeAny, hlongest]

theorem reads_accept {token : String} (hb : lexicon.Margin skip b) (h : token.toList ≠ [])
    (hs : skip → lexicon.Solid token.toList) :
    Reads lexicon (accept token skip) (b ++ token.toList) follow true := by
  rintro t rfl ht
  rw [List.append_assoc] at ht
  have hset := Scanner.settled_eq hb (fun hskip => (hs hskip).append h follow) ht
  rw [accept_eq h, hset, Scanner.rest_advance_of_append ht, if_pos (by simp),
    Scanner.advance_advance, List.length_append, String.length_toList]

theorem reads_accept_none {token : String} (hb : lexicon.Margin skip b) (h : token.toList ≠ [])
    (hs : skip → lexicon.Solid follow) (hn : ¬ token.toList <+: follow) :
    Reads lexicon (accept token skip) b follow false := by
  rintro t rfl ht
  rw [accept_eq h, Scanner.settled_eq hb hs ht, Scanner.rest_advance_of_append ht,
    if_neg fun hp => hn (List.isPrefixOf_iff_prefix.1 hp)]

theorem reads_expect {token : String} (hb : lexicon.Margin skip b) (h : token.toList ≠ [])
    (hs : skip → lexicon.Solid token.toList) :
    Reads lexicon (expect token skip) (b ++ token.toList) follow () :=
  (reads_accept hb h hs).bind_pure (reads_pure ())

theorem reads_unquoted {stops : List Char} (hne : text ≠ [])
    (hin : ∀ c ∈ text, c ∉ lexicon.whitespace ∧ c ∉ stops ∧ c ∉ lexicon.symbols)
    (hend : ∀ c ∈ follow.head?, c ∈ lexicon.whitespace ∨ c ∈ stops) :
    Reads lexicon (unquoted stops) text follow (String.ofList text) := by
  rintro t rfl ht
  have htake : t.rest.takeWhile
      (fun c => !(t.isBlank c || stops.contains c) && !t.lexicon.symbols.contains c) = text := by
    rw [ht, List.takeWhile_append_of_pos]
    · cases follow with
      | nil => simp
      | cons c follow =>
        rw [List.takeWhile_cons_of_neg, List.append_nil]
        have hc := hend c rfl
        simp only [Scanner.isBlank, List.contains_eq_mem]
        rcases hc with hc | hc <;> simp [hc]
    · intro c hc
      obtain ⟨hb, hs, hy⟩ := hin c hc
      simp [Scanner.isBlank, hb, hs, hy]
  have hhead : (follow.head?.filter fun c => !(t.isBlank c || stops.contains c)) = none := by
    rw [Option.filter_eq_none_iff]
    intro c hc
    rcases hend c hc with hc | hc <;> simp [Scanner.isBlank, hc]
  have hnil : text.isEmpty = false := by simpa using hne
  simp only [unquoted, htake, Scanner.rest_advance_of_append ht, hhead, hnil]
  rfl

end

theorem expectEnd_eq_ok_iff {t t' : Scanner} : expectEnd t = .ok () t' ↔
    t.lexicon.Blanks t.rest ∧ t' = t.skipBlanks := by
  have hblanks : t.lexicon.Blanks t.rest ↔ t.skipBlanks.rest.head? = none := by
    rw [Scanner.skipBlanks, Scanner.rest_skipWhile, List.head?_eq_none_iff,
      List.dropWhile_eq_nil_iff]
    exact forall₂_congr fun c _ => List.contains_iff_mem.symm
  have hend : atEnd true t = .ok t.skipBlanks.rest.head?.isNone t.skipBlanks := rfl
  rw [hblanks, expectEnd, bind_of_ok hend]
  cases t.skipBlanks.rest.head? with
  | none => simp [pure, EStateM.pure, eq_comm]
  | some c => simp [fail]

/-- Nothing but blanks is left. -/
theorem reads_expectEnd {b : List Char} (hb : lexicon.Blanks b) :
    Reads lexicon expectEnd b [] () := by
  rintro t rfl ht
  have hsolid : t.lexicon.Solid [] := nofun
  have hskip := Scanner.skipBlanks_eq hb hsolid ht
  rw [List.append_nil] at ht
  exact expectEnd_eq_ok_iff.2 ⟨ht ▸ hb, hskip.symm⟩

/-- A reader for the texts shorter than one at hand. -/
theorem reads_beyond {t : Scanner} (hx : Reads lexicon x text follow a)
    (hless : (text ++ follow).length < t.rest.length) :
    Reads lexicon (beyond t fun u _ => x u) text follow a := by
  intro u hl hu
  have hu' : u.rest.length < t.rest.length := by rw [hu]; exact hless
  rw [beyond, dif_pos hu', hx u hl hu]

end

/-! ## Spaced tokens -/

/-- The text of the tokens, with blanks before each of them. -/
inductive Spaced (lexicon : Lexicon) : List (List Char) → List Char → Prop where
  | nil : Spaced lexicon [] []
  | cons {b token text : List Char} {tokens : List (List Char)} : lexicon.Blanks b →
      Spaced lexicon tokens text → Spaced lexicon (token :: tokens) (b ++ (token ++ text))

section

variable {α : Type} {lexicon : Lexicon}

theorem spaced_flatten (tokens : List (List Char)) : Spaced lexicon tokens tokens.flatten := by
  induction tokens with
  | nil => exact .nil
  | cons token tokens ih => exact .cons (b := []) (lexicon.margin_nil true).1 ih

theorem Spaced.split {xs ys : List (List Char)} {text : List Char}
    (h : Spaced lexicon (xs ++ ys) text) :
    ∃ t u, text = t ++ u ∧ Spaced lexicon xs t ∧ Spaced lexicon ys u := by
  induction xs generalizing text with
  | nil => exact ⟨[], text, rfl, .nil, h⟩
  | cons token xs ih =>
    obtain _ | ⟨hb, h⟩ := h
    obtain ⟨t, u, rfl, hx, hy⟩ := ih h
    exact ⟨_, u, by simp only [List.append_assoc], .cons hb hx, hy⟩

theorem Spaced.singleton {token text : List Char} (h : Spaced lexicon [token] text) :
    ∃ b, lexicon.Blanks b ∧ text = b ++ token := by
  obtain _ | ⟨hb, h⟩ := h
  obtain _ | _ := h
  exact ⟨_, hb, by rw [List.append_nil]⟩

/-- The tokens of some items with commas between them. -/
def joined : List (List (List Char)) → List (List Char)
  | [] => []
  | [item] => item
  | item :: rest => item ++ [','] :: joined rest

theorem joined_cons_cons (item item' : List (List Char)) (rest : List (List (List Char))) :
    joined (item :: item' :: rest) = item ++ [','] :: joined (item' :: rest) := rfl

theorem flatten_joined (parts : List (List (List Char))) :
    (joined parts).flatten = [','].intercalate (parts.map List.flatten) := by
  induction parts with
  | nil => rfl
  | cons part parts ih =>
    cases parts with
    | nil => simp [joined, List.intercalate]
    | cons part' parts =>
      rw [joined_cons_cons, List.flatten_append, List.flatten_cons, ih]
      simp [List.intercalate]

section

variable {item : Scan α} {close : String} {mark : Char} {u v b follow : List Char} {a : α}
  {values : List α}

/-- The last item, with the closing mark behind it. -/
theorem Reads.last (hitem : Reads lexicon item u (b ++ mark :: follow) a)
    (hb : lexicon.Blanks b) (hmark : close.toList = [mark]) (hm : mark ∉ lexicon.whitespace)
    (hmc : mark ≠ ',') :
    Reads lexicon (commaSeparated item close) (u ++ (b ++ [mark])) follow [a] := by
  intro t hl hr
  simp only [List.append_assoc, List.singleton_append] at hr
  have h₁ := hitem t hl hr
  have hr₁ := Scanner.rest_advance_of_append hr
  have hsolid : lexicon.Solid (mark :: follow) := fun c hc => by cases hc; exact hm
  have hcomma : ¬ ",".toList <+: mark :: follow := by
    simpa [List.cons_prefix_cons] using Ne.symm hmc
  have h₂ := reads_accept_none hb.margin (by decide) (fun _ => hsolid) hcomma (t.advance u.length)
    hl hr₁
  have hr₂ := Scanner.rest_advance_of_append hr₁
  have hexpect : Reads lexicon (expect close true) [mark] follow () := by
    have hread : Reads lexicon (expect close true) close.toList follow () :=
      reads_expect (lexicon.margin_nil true) (by simp [hmark])
        (by rw [hmark]; intro _ c hc; cases hc; exact hm)
    rwa [hmark] at hread
  have h₃ := Reads.bind_pure (f := fun _ => pure [a]) hexpect (reads_pure [a])
    ((t.advance u.length).advance b.length) hl hr₂
  rw [commaSeparated, h₁]
  simp only [h₂]
  rw [h₃]
  simp only [Scanner.advance_advance, List.length_append, Nat.add_assoc]

/-- An item, with a comma and the other items behind it. -/
theorem Reads.further (hitem : Reads lexicon item u (b ++ ',' :: (v ++ follow)) a)
    (hrest : Reads lexicon (commaSeparated item close) v follow values)
    (hb : lexicon.Blanks b) (hc : ',' ∉ lexicon.whitespace) :
    Reads lexicon (commaSeparated item close) (u ++ (b ++ ',' :: v)) follow (a :: values) := by
  intro t hl hr
  simp only [List.append_assoc, List.cons_append] at hr
  have h₁ := hitem t hl hr
  have hr₁ := Scanner.rest_advance_of_append hr
  have hcomma : ",".toList = [','] := rfl
  have hr₁' : (t.advance u.length).rest = (b ++ ",".toList) ++ (v ++ follow) := by
    rw [hr₁, hcomma, List.append_assoc, List.singleton_append]
  have h₂ : accept "," true (t.advance u.length) =
      .ok true ((t.advance u.length).advance (b ++ ",".toList).length) := by
    refine reads_accept hb.margin (by decide) ?_ (t.advance u.length) hl hr₁'
    intro _ c hc'
    cases hc'
    exact hc
  have hr₂ := Scanner.rest_advance_of_append hr₁'
  have h₃ := hrest ((t.advance u.length).advance (b ++ ",".toList).length) hl hr₂
  have hless : ((t.advance u.length).advance (b ++ ",".toList).length).rest.length <
      t.rest.length := by
    rw [hr₂, hr]
    simp only [List.length_append, List.length_cons]
    omega
  rw [commaSeparated, h₁]
  simp only [h₂]
  rw [if_pos hless, h₃]
  simp only [Scanner.advance_advance, List.length_append, List.length_cons, hcomma,
    List.length_nil]
  congr 2
  omega

end

/-- The first token begins with neither a blank nor `mark`. -/
def Begins (lexicon : Lexicon) (mark : Char) (part : List (List Char)) : Prop :=
  ∃ c word rest, part = (c :: word) :: rest ∧ c ∉ lexicon.whitespace ∧ c ≠ mark

theorem Begins.append {mark : Char} {part : List (List Char)} (h : Begins lexicon mark part)
    (more : List (List Char)) : Begins lexicon mark (part ++ more) := by
  obtain ⟨c, word, rest, rfl, hc⟩ := h
  exact ⟨c, word, rest ++ more, rfl, hc⟩

theorem Begins.joined {mark : Char} {part : List (List Char)} (h : Begins lexicon mark part)
    (parts : List (List (List Char))) : Begins lexicon mark (joined (part :: parts)) := by
  cases parts with
  | nil => exact h
  | cons part' parts => exact h.append _

/-- The item is read from its spaced tokens in texts of at most `n` characters. `ends`
is what it has to be followed by, and `mark` closes the list. -/
structure ReadsItem (lexicon : Lexicon) (item : Scan α) (mark : Char) (ends : List Char → Prop)
    (n : Nat) (part : List (List Char)) (a : α) : Prop where
  begins : Begins lexicon mark part
  reads : ∀ text follow, ends follow → Spaced lexicon part text → (text ++ follow).length ≤ n →
    Reads lexicon item text follow a

section

variable {item : Scan α} {close : String} {mark : Char} {ends : List Char → Prop} {n : Nat}
  {parts : List (List (List Char))} {values : List α} {text follow : List Char}

/-- Where every item is read from its own tokens, the list is read from all of them. -/
theorem reads_commaSeparated (hmark : close.toList = [mark]) (hm : mark ∉ lexicon.whitespace)
    (hmc : mark ≠ ',') (hc : ',' ∉ lexicon.whitespace)
    (hends : ∀ b c rest, lexicon.Blanks b → c = ',' ∨ c = mark → ends (b ++ c :: rest))
    (hitems : List.Forall₂ (ReadsItem lexicon item mark ends n) parts values) (hne : parts ≠ [])
    (ht : Spaced lexicon (joined parts ++ [[mark]]) text) (hn : (text ++ follow).length ≤ n) :
    Reads lexicon (commaSeparated item close) text follow values := by
  induction hitems generalizing text with
  | nil => exact absurd rfl hne
  | @cons part a parts values hitem hrest ih =>
    cases parts with
    | nil =>
      cases hrest
      obtain ⟨u, v, rfl, hu, hv⟩ := ht.split
      obtain ⟨b, hb, rfl⟩ := hv.singleton
      simp only [List.append_assoc, List.singleton_append] at hn
      have hu := hitem.reads u _ (hends b mark follow hb (.inr rfl)) hu hn
      exact hu.last hb hmark hm hmc
    | cons part' parts =>
      rw [joined_cons_cons, List.append_assoc, List.cons_append] at ht
      obtain ⟨u, v, rfl, hu, hv⟩ := ht.split
      obtain _ | @⟨b, _, rest, _, hb, hv⟩ := hv
      simp only [List.append_assoc, List.singleton_append] at hn ⊢
      have hu := hitem.reads u _ (hends b ',' (rest ++ follow) hb (.inl rfl)) hu hn
      have hlen : (rest ++ follow).length ≤ n := by
        simp only [List.length_append, List.length_cons] at hn ⊢
        omega
      have hne' : part' :: parts ≠ [] := List.cons_ne_nil part' parts
      exact hu.further (ih hne' hv hlen) hb hc

theorem reads_itemsThrough (hmark : close.toList = [mark]) (hm : mark ∉ lexicon.whitespace)
    (hmc : mark ≠ ',') (hc : ',' ∉ lexicon.whitespace)
    (hends : ∀ b c rest, lexicon.Blanks b → c = ',' ∨ c = mark → ends (b ++ c :: rest))
    (hitems : List.Forall₂ (ReadsItem lexicon item mark ends n) parts values)
    (ht : Spaced lexicon (joined parts ++ [[mark]]) text) (hn : (text ++ follow).length ≤ n) :
    Reads lexicon (itemsThrough item close) text follow values := by
  have hne : close.toList ≠ [] := by simp [hmark]
  have hsolid : lexicon.Solid close.toList := by
    rw [hmark]
    intro c hc
    cases hc
    exact hm
  cases hitems with
  | nil =>
    obtain ⟨b, hb, rfl⟩ := ht.singleton
    have haccept : Reads lexicon (accept close true) (b ++ close.toList) follow true :=
      reads_accept hb.margin hne fun _ => hsolid
    rw [hmark] at haccept
    exact haccept.bind_pure (reads_pure [])
  | @cons part a parts values hitem hrest =>
    obtain ⟨c, word, rest, hpart, hblank, hdiff⟩ := (hitem.begins.joined parts).append [[mark]]
    rw [hpart] at ht
    obtain _ | @⟨b, _, rest', _, hb, ht⟩ := ht
    -- The blanks are passed while the closing mark is looked for.
    have hno : ¬ close.toList <+: c :: (word ++ rest') ++ follow := by
      rw [hmark]
      simpa [List.cons_prefix_cons] using Ne.symm hdiff
    have haccept : Reads lexicon (accept close true) b ((c :: word ++ rest') ++ follow) false :=
      reads_accept_none hb.margin hne (fun _ c' hc' => by cases hc'; exact hblank) hno
    have hspaced : Spaced lexicon (joined (part :: parts) ++ [[mark]]) (c :: word ++ rest') := by
      rw [hpart]
      exact .cons (b := []) (lexicon.margin_nil true).1 ht
    have hlen : (c :: word ++ rest' ++ follow).length ≤ n := by
      simp only [List.length_append] at hn ⊢
      omega
    exact haccept.bind
      (reads_commaSeparated hmark hm hmc hc hends (.cons hitem hrest) nofun hspaced hlen)

end

end

end Scan

end CommandChain
