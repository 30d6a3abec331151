import CommandChain.Coordinate.Parser
import CommandChain.Proofs.Scanner.Numeral
import Mathlib.Data.Bool.AllAny
import Mathlib.Data.Set.Subsingleton

/-!
# The grammar of coordinates

A text is laid out (`Layout`) as components with blanks around them. A component is a
number, or a mark with a number directly behind it or with none; blanks are needed before
a component without a mark, unless it is the first. A text has one layout at most
(`Layout.eq_of_chars`), and positions and rotations are read from exactly those texts
that have one with three or with two components (`scanRow_iff`).
-/

namespace CommandChain

namespace Coord

open Scan

/-! ## Components as written -/

/-- A component as it is written. -/
structure Spelling where
  kind : CoordKind
  number : Option Numeral

namespace Spelling

/-- The mark that tells the kind. -/
def mark : CoordKind → List Char
  | .absolute => []
  | .relative => ['~']
  | .localAxis => ['^']

def numberChars (number : Option Numeral) : List Char := (number.map Numeral.chars).getD []

def chars (c : Spelling) : List Char := mark c.kind ++ numberChars c.number

/-- The number is one that is read, and only a mark stands without a number. -/
structure Valid (c : Spelling) : Prop where
  number : ∀ n ∈ c.number, n.Valid ∧ n.Fits
  absolute : c.kind = .absolute → c.number.isSome

/-- The number written, zero if there is none. -/
def value (c : Spelling) : Float := (c.number.map Numeral.toFloat).getD 0

/-- The component has a number without a point. -/
def isInteger (c : Spelling) : Bool := c.number.any (·.fraction.isNone)

/-- The component that is meant; an absolute one without a point is moved to the middle of
its block when `centered`. -/
def coord (centered : Bool) (c : Spelling) : Coord :=
  ⟨c.kind, if centered ∧ c.kind = .absolute ∧ c.isInteger then c.value + 0.5 else c.value⟩

end Spelling

/-- A component may end before the text. -/
def Ends (follow : List Char) : Prop :=
  ∀ c ∈ follow.head?, c ∈ lexicon.whitespace ∨ c = '~' ∨ c = '^'

section

variable {b follow : List Char} {c : Spelling} {n : Numeral}

theorem startsNumber_of_mark :
    ∀ c ∈ lexicon.whitespace ++ ['~', '^'], ArgValue.startsNumber c = false :=
  List.all_iff_forall_prop.1 (by decide)

theorem Ends.clear (h : Ends follow) : Numeral.Clear follow := by
  intro c hc
  refine startsNumber_of_mark c (List.mem_append.2 ?_)
  exact (h c hc).imp_right fun hmark => by simpa using hmark

theorem ends_of_blanks (hb : lexicon.Blanks b) (hfollow : Ends follow) : Ends (b ++ follow) := by
  cases b with
  | nil => exact hfollow
  | cons c b => intro c' hc'; cases hc'; exact .inl (hb c List.mem_cons_self)

namespace Spelling

/-- A component begins with its mark, or with its number. -/
theorem Valid.head (h : c.Valid) : ∃ ch w, c.chars = ch :: w ∧ ch ∉ lexicon.whitespace ∧
    ((ch = '~' ∨ ch = '^') ↔ c.kind ≠ .absolute) := by
  have hnumber : ∀ ch, ArgValue.startsNumber ch →
      ch ∉ lexicon.whitespace ∧ ch ≠ '~' ∧ ch ≠ '^' := by
    intro ch hch
    have hmark : ch ∉ lexicon.whitespace ++ ['~', '^'] := by
      intro hmem
      rw [startsNumber_of_mark ch hmem] at hch
      cases hch
    simpa using hmark
  obtain ⟨kind, number⟩ := c
  cases kind with
  | absolute =>
    obtain ⟨n, rfl⟩ := Option.isSome_iff_exists.1 (h.absolute rfl)
    obtain ⟨ch, w, hchars, hch⟩ := (h.number n rfl).1.head
    obtain ⟨hblank, htilde, hcaret⟩ := hnumber ch hch
    exact ⟨ch, w, hchars, hblank, by simp [htilde, hcaret]⟩
  | relative => exact ⟨'~', _, rfl, by decide, by simp⟩
  | localAxis => exact ⟨'^', _, rfl, by decide, by simp⟩

theorem Valid.solid (h : c.Valid) (follow : List Char) : lexicon.Solid (c.chars ++ follow) := by
  obtain ⟨ch, w, hchars, hblank, -⟩ := h.head
  rw [hchars]
  intro c' hc'
  cases hc'
  exact hblank

/-- Blanks are needed before a component without a mark, and before no other. -/
theorem Valid.ends_iff (h : c.Valid) (hb : lexicon.Blanks b) (follow : List Char) :
    Ends (b ++ (c.chars ++ follow)) ↔ (c.kind = .absolute → b ≠ []) := by
  cases b with
  | cons ch b =>
    refine iff_of_true ?_ fun _ => List.cons_ne_nil ch b
    intro c' hc'
    cases hc'
    exact .inl (hb ch List.mem_cons_self)
  | nil =>
    obtain ⟨ch, w, hchars, hblank, hmark⟩ := h.head
    rw [hchars]
    constructor
    · intro hends hkind
      exact absurd hkind (hmark.1 ((hends ch rfl).resolve_left hblank))
    · intro hkind c' hc'
      cases hc'
      exact .inr (hmark.2 fun habsolute => hkind habsolute rfl)

theorem Valid.read_number (h : c.Valid) (hfollow : Ends follow) :
    Numeral.read (numberChars c.number ++ follow) = c.number := by
  obtain ⟨kind, number⟩ := c
  cases number with
  | none => exact hfollow.clear.read
  | some n => exact Numeral.read_chars_append (h.number n rfl).1 (hfollow.clear.stopsAt n)

/-- The text tells the component, and where it ends. -/
theorem Valid.eq_of_chars {c' : Spelling} {follow' : List Char} (h : c.Valid) (h' : c'.Valid)
    (hf : Ends follow) (hf' : Ends follow') (heq : c.chars ++ follow = c'.chars ++ follow') :
    c = c' ∧ follow = follow' := by
  have hkind : c.kind = c'.kind := by
    obtain ⟨ch, w, hchars, -, hmark⟩ := h.head
    obtain ⟨ch', w', hchars', -, hmark'⟩ := h'.head
    obtain ⟨kind, number⟩ := c
    obtain ⟨kind', number'⟩ := c'
    have hch : ch = ch' := by
      rw [hchars, hchars'] at heq
      exact (List.cons.inj heq).1
    subst hch
    cases kind <;> cases kind' <;> simp_all [chars, mark]
  have hnumber : numberChars c.number ++ follow = numberChars c'.number ++ follow' := by
    unfold chars at heq
    rw [hkind, List.append_assoc, List.append_assoc] at heq
    exact List.append_cancel_left heq
  have hread := h.read_number hf
  rw [hnumber, h'.read_number hf'] at hread
  obtain rfl : c = c' := by
    cases c
    cases c'
    simp_all
  exact ⟨rfl, List.append_cancel_left hnumber⟩

end Spelling

end

/-! ## Reading a component -/

/-- The component behind its first character. -/
def scanFrom (centered : Bool) (c : Char) : Scan Coord :=
  match c with
  | '~' => next false >>= fun _ => relative <$> numberOrZero
  | '^' => next false >>= fun _ => localAxis <$> numberOrZero
  | _ => absolute <$> absoluteValue centered

theorem scan_eq (centered : Bool) : Coord.scan centered =
    (peek true >>= fun head => head.elim (fail "expected coordinate") (scanFrom centered) >>=
      fun coord => ending >>= fun _ => pure coord) := by
  unfold Coord.scan
  refine congrArg (peek true >>= ·) (funext fun head => ?_)
  cases head with
  | none => rfl
  | some c =>
    unfold scanFrom
    split <;> simp_all

section

variable {t t' : Scanner} {centered : Bool} {ch : Char} {w b follow : List Char} {coord : Coord}
  {c : Spelling}

theorem ending_eq : ending = (peek false >>= fun head => head.elim (pure ()) fun c =>
    if c = '~' ∨ c = '^' then pure () else get >>= fun t =>
      if !t.isBlank c then fail ("unexpected `" ++ c.toString ++ "` in coordinate")
      else pure ()) := by
  unfold ending
  refine congrArg (peek false >>= ·) (funext fun head => ?_)
  split
  · rfl
  · rfl
  · rfl
  · next c htilde hcaret =>
    have hnot : ¬ (c = '~' ∨ c = '^') := by
      rintro (rfl | rfl)
      · exact htilde rfl
      · exact hcaret rfl
    exact (if_neg hnot).symm

theorem ending_eq_ok_iff : ending t = .ok () t' ↔
    t' = t ∧ ∀ c ∈ t.rest.head?, c ∈ t.lexicon.whitespace ∨ c = '~' ∨ c = '^' := by
  have hpeek : peek false t = .ok t.rest.head? t := rfl
  have hget : (get : Scan Scanner) t = .ok t t := rfl
  have hreturn : (pure () : Scan Unit) t = .ok () t' ↔ t' = t := by
    simp [pure, EStateM.pure, eq_comm]
  rw [ending_eq, bind_of_ok hpeek]
  cases t.rest.head? with
  | none => simpa using hreturn
  | some c =>
    rw [Option.elim_some]
    split
    · next hmark => simp [hreturn, hmark]
    · next hmark =>
      rw [bind_of_ok hget]
      by_cases hblank : c ∈ t.lexicon.whitespace
      · simp [hreturn, Scanner.isBlank, hblank]
      · simp [fail, Scanner.isBlank, hblank, hmark]

theorem reads_ending (h : Ends follow) : Reads lexicon ending [] follow () := by
  intro t hl ht
  rw [List.length_nil, Scanner.advance_zero]
  refine ending_eq_ok_iff.2 ⟨rfl, ?_⟩
  rw [ht, hl]
  exact h

/-- The number behind a mark, or nothing. -/
theorem reads_numberOrZero (h : c.Valid) (hfollow : Ends follow) :
    Reads lexicon numberOrZero (Spelling.numberChars c.number) follow c.value := by
  obtain ⟨kind, number⟩ := c
  cases number with
  | none => exact reads_numberOrZero_nil hfollow.clear
  | some n =>
    obtain ⟨hvalid, hfits⟩ := h.number n rfl
    obtain ⟨m, hm⟩ := exists_numberOf_iff.2 hfits
    have hread : Reads lexicon numberOrZero n.chars follow m.value :=
      reads_numberOrZero_numeral hvalid hm (hfollow.clear.stopsAt n)
    rwa [(numberOf_some hm).1] at hread

theorem reads_absoluteValue {n : Numeral} (hvalid : n.Valid) (hfits : n.Fits)
    (hfollow : Ends follow) : Reads lexicon (absolute <$> absoluteValue centered) n.chars follow
      (Spelling.coord centered ⟨.absolute, some n⟩) := by
  obtain ⟨m, hm⟩ := exists_numberOf_iff.2 hfits
  obtain ⟨hvalue, hinteger⟩ := numberOf_some hm
  have hnumber : Reads lexicon Scan.number n.chars follow m :=
    reads_number hvalid hm (hfollow.clear.stopsAt n)
  have hcoord : Spelling.coord centered ⟨.absolute, some n⟩ =
      absolute (if centered && m.integer.isSome then m.value + 0.5 else m.value) := by
    simp [Spelling.coord, Spelling.value, Spelling.isInteger, absolute, hvalue, hinteger]
  rw [hcoord]
  exact Reads.map (hnumber.bind_pure (reads_pure _))

/-- What stands behind a mark. -/
def behindMark (kind : CoordKind) : Scan Coord :=
  next false >>= fun _ => Coord.mk kind <$> numberOrZero

theorem reads_behindMark (h : c.Valid) (hkind : c.kind ≠ .absolute)
    (hmark : Spelling.mark c.kind = [ch]) (hfollow : Ends follow) :
    Reads lexicon (behindMark c.kind) c.chars follow (c.coord centered) := by
  have hcoord : c.coord centered = ⟨c.kind, c.value⟩ := by simp [Spelling.coord, hkind]
  rw [Spelling.chars, hmark, hcoord]
  exact (reads_next ch).bind (reads_numberOrZero h hfollow).map

theorem reads_scan (h : c.Valid) (hb : lexicon.Blanks b) (hfollow : Ends follow) :
    Reads lexicon (Coord.scan centered) (b ++ c.chars) follow (c.coord centered) := by
  rw [scan_eq]
  refine Reads.bind (reads_peek hb.margin fun _ => h.solid follow) ?_
  refine Reads.bind_pure ?_ ((reads_ending hfollow).bind_pure (reads_pure _))
  obtain ⟨kind, number⟩ := c
  cases kind with
  | absolute =>
    obtain ⟨n, rfl⟩ := Option.isSome_iff_exists.1 (h.absolute rfl)
    obtain ⟨hvalid, hfits⟩ := h.number n rfl
    obtain ⟨ch, w, hchars, -, hmark⟩ := h.head
    have hmark : ch ≠ '~' ∧ ch ≠ '^' := by simpa using hmark
    have hfrom : scanFrom centered ch = absolute <$> absoluteValue centered := by
      unfold scanFrom
      split <;> simp_all
    have hread : Reads lexicon (absolute <$> absoluteValue centered) n.chars follow _ :=
      reads_absoluteValue hvalid hfits hfollow
    rw [← hfrom] at hread
    have hhead : (Spelling.chars ⟨.absolute, some n⟩ ++ follow).head? = some ch := by
      rw [hchars]
      rfl
    rw [hhead]
    exact hread
  | relative => exact reads_behindMark h nofun rfl hfollow
  | localAxis => exact reads_behindMark h nofun rfl hfollow

theorem behindMark_ok {kind : CoordKind} (hkind : kind ≠ .absolute)
    (hmark : Spelling.mark kind = [ch]) (ht : t.rest = ch :: w)
    (h : behindMark kind t = .ok coord t') :
    ∃ c rest, t.rest = Spelling.chars c ++ rest ∧ c.Valid ∧ coord = c.coord centered ∧
      t' = t.advance c.chars.length := by
  have hnext : next false t = .ok t.rest.head? (t.advance 1) := rfl
  have hrest : (t.advance 1).rest = w := by
    rw [Scanner.rest_advance, ht]
    rfl
  have hchars (number : Option Numeral) :
      Spelling.chars ⟨kind, number⟩ = ch :: Spelling.numberChars number := by
    rw [Spelling.chars, hmark]
    rfl
  have habsolute {number : Option Numeral} (h : kind = .absolute) : number.isSome :=
    absurd h hkind
  rw [behindMark, bind_of_ok hnext] at h
  obtain ⟨x, hx, rfl⟩ := map_eq_ok_iff.1 h
  rcases numberOrZero_ok hx with ⟨rfl, rfl⟩ | ⟨m, hm, rfl⟩
  · refine ⟨⟨kind, none⟩, w, ?_, ⟨nofun, habsolute⟩, ?_, ?_⟩
    · rw [hchars, ht]
      rfl
    · simp [Spelling.coord, Spelling.value, hkind]
    · rw [hchars]
      rfl
  · obtain ⟨n, rest, hvalid, hn, rfl, hvalue⟩ := number_ok hm
    have hfits := exists_numberOf_iff.1 ⟨m, hvalue⟩
    refine ⟨⟨kind, some n⟩, rest, ?_, ⟨?_, habsolute⟩, ?_, ?_⟩
    · rw [hchars, ht, ← hrest, hn]
      rfl
    · rintro n' ⟨⟩
      exact ⟨hvalid, hfits⟩
    · simp [Spelling.coord, Spelling.value, hkind, (numberOf_some hvalue).1]
    · rw [hchars, Scanner.advance_advance, Nat.add_comm]
      rfl

theorem absolute_ok (h : (absolute <$> absoluteValue centered) t = .ok coord t') :
    ∃ c rest, t.rest = Spelling.chars c ++ rest ∧ c.Valid ∧ coord = c.coord centered ∧
      t' = t.advance c.chars.length := by
  obtain ⟨x, hx, rfl⟩ := map_eq_ok_iff.1 h
  obtain ⟨m, t₁, hm, hx₁⟩ := bind_eq_ok_iff.1 hx
  cases hx₁
  obtain ⟨n, rest, hvalid, hn, rfl, hvalue⟩ := number_ok hm
  have hfits := exists_numberOf_iff.1 ⟨m, hvalue⟩
  obtain ⟨hfloat, hinteger⟩ := numberOf_some hvalue
  refine ⟨⟨.absolute, some n⟩, rest, hn, ⟨?_, fun _ => rfl⟩, ?_, rfl⟩
  · rintro n' ⟨⟩
    exact ⟨hvalid, hfits⟩
  · simp [Spelling.coord, Spelling.value, Spelling.isInteger, absolute, hfloat, hinteger]

theorem scanFrom_ok (ht : t.rest = ch :: w) (h : scanFrom centered ch t = .ok coord t') :
    ∃ c rest, t.rest = Spelling.chars c ++ rest ∧ c.Valid ∧ coord = c.coord centered ∧
      t' = t.advance c.chars.length := by
  have hrelative : CoordKind.relative ≠ .absolute := nofun
  have hlocal : CoordKind.localAxis ≠ .absolute := nofun
  unfold scanFrom at h
  split at h
  · exact behindMark_ok hrelative rfl ht h
  · exact behindMark_ok hlocal rfl ht h
  · exact absolute_ok h

/-- A component is read where one stands behind blanks and may end, and nowhere else. -/
theorem scan_eq_ok_iff (hl : t.lexicon = lexicon) : Coord.scan centered t = .ok coord t' ↔
    ∃ b c rest, t.rest = b ++ (Spelling.chars c ++ rest) ∧ lexicon.Blanks b ∧ c.Valid ∧
      Ends rest ∧ coord = c.coord centered ∧ t' = t.advance (b ++ c.chars).length := by
  constructor
  · intro h
    rw [scan_eq] at h
    obtain ⟨head, t₁, hpeek, h₁⟩ := bind_eq_ok_iff.1 h
    obtain ⟨coord', t₂, hread, h₂⟩ := bind_eq_ok_iff.1 h₁
    obtain ⟨_, t₃, hend, h₃⟩ := bind_eq_ok_iff.1 h₂
    cases h₃
    obtain ⟨rfl, hends⟩ := ending_eq_ok_iff.1 hend
    cases hpeek
    obtain ⟨b, hblanks, hsplit, -, hskip⟩ := t.exists_skipBlanks
    rw [hl] at hblanks
    cases hrest : (t.settled true).rest with
    | nil => rw [hrest] at hread; cases hread
    | cons ch w =>
      rw [hrest] at hread
      obtain ⟨c, rest, hc, hvalid, rfl, rfl⟩ := scanFrom_ok hrest hread
      refine ⟨b, c, rest, hc ▸ hsplit, hblanks, hvalid, ?_, rfl, ?_⟩
      · rw [Scanner.rest_advance_of_append hc, Scanner.lexicon_advance] at hends
        have hlexicon : (t.settled true).lexicon = lexicon := hl
        rw [hlexicon] at hends
        exact hends
      · rw [List.length_append, ← Scanner.advance_advance, ← hskip]
        rfl
  · rintro ⟨b, c, rest, hrest, hb, hvalid, hends, rfl, rfl⟩
    exact reads_scan hvalid hb hends t hl (by rw [hrest, List.append_assoc])

end

/-! ## Texts laid out -/

/-- Components with the blanks before each of them, and the blanks behind the last. -/
structure Layout where
  parts : List (List Char × Spelling)
  last : List Char

namespace Layout

def chars (d : Layout) : List Char :=
  d.parts.flatMap (fun part => part.1 ++ part.2.chars) ++ d.last

def components (d : Layout) : List Spelling := d.parts.map Prod.snd

/-- What stands between the components is blank, and nothing may be missing but the blanks
before the first component or before a mark. -/
structure Valid (d : Layout) : Prop where
  blanks : ∀ part ∈ d.parts, lexicon.Blanks part.1
  last : lexicon.Blanks d.last
  spelled : ∀ part ∈ d.parts, part.2.Valid
  apart : ∀ part ∈ d.parts.tail, part.2.kind = .absolute → part.1 ≠ []

variable {b last : List Char} {c : Spelling} {parts : List (List Char × Spelling)}

theorem chars_cons : chars ⟨(b, c) :: parts, last⟩ = b ++ (c.chars ++ chars ⟨parts, last⟩) := by
  simp [chars]

/-- A component may end before the others. -/
theorem valid_cons : Valid ⟨(b, c) :: parts, last⟩ ↔
    lexicon.Blanks b ∧ c.Valid ∧ Ends (chars ⟨parts, last⟩) ∧ Valid ⟨parts, last⟩ := by
  constructor
  · rintro ⟨hblanks, hlast, hspelled, hapart⟩
    obtain ⟨hb, hblanks⟩ := List.forall_mem_cons.1 hblanks
    obtain ⟨hc, hspelled⟩ := List.forall_mem_cons.1 hspelled
    refine ⟨hb, hc, ?_, hblanks, hlast, hspelled,
      fun part h => hapart part (List.mem_of_mem_tail h)⟩
    cases parts with
    | nil =>
      have hends : Ends (last ++ []) := ends_of_blanks hlast nofun
      rwa [List.append_nil] at hends
    | cons part parts =>
      rw [chars_cons, (hspelled part List.mem_cons_self).ends_iff
        (hblanks part List.mem_cons_self)]
      exact hapart part List.mem_cons_self
  · rintro ⟨hb, hc, hends, hblanks, hlast, hspelled, hapart⟩
    refine ⟨List.forall_mem_cons.2 ⟨hb, hblanks⟩, hlast,
      List.forall_mem_cons.2 ⟨hc, hspelled⟩, ?_⟩
    cases parts with
    | nil => nofun
    | cons part parts =>
      rw [chars_cons, (hspelled part List.mem_cons_self).ends_iff
        (hblanks part List.mem_cons_self)] at hends
      exact List.forall_mem_cons.2 ⟨hends, hapart⟩

theorem Valid.not_blanks (h : Valid ⟨(b, c) :: parts, last⟩) :
    ¬ lexicon.Blanks (chars ⟨(b, c) :: parts, last⟩) := by
  obtain ⟨-, hc, -, -⟩ := valid_cons.1 h
  obtain ⟨ch, w, hchars, hblank, -⟩ := hc.head
  rw [chars_cons, hchars]
  exact fun hblanks => hblank (hblanks ch (by simp))

/-- A text has one layout at most. -/
theorem eq_of_chars {d d' : Layout} (h : d.Valid) (h' : d'.Valid) (heq : d.chars = d'.chars) :
    d = d' := by
  obtain ⟨parts, last⟩ := d
  obtain ⟨parts', last'⟩ := d'
  induction parts generalizing parts' with
  | nil =>
    cases parts' with
    | nil => exact congrArg (Layout.mk []) heq
    | cons part parts' =>
      have hblanks : lexicon.Blanks (chars ⟨[], last⟩) := h.last
      rw [heq] at hblanks
      exact absurd hblanks h'.not_blanks
  | cons part parts ih =>
    cases parts' with
    | nil =>
      have hblanks : lexicon.Blanks (chars ⟨[], last'⟩) := h'.last
      rw [← heq] at hblanks
      exact absurd hblanks h.not_blanks
    | cons part' parts' =>
      obtain ⟨b, c⟩ := part
      obtain ⟨b', c'⟩ := part'
      obtain ⟨hb, hc, hends, hrest⟩ := valid_cons.1 h
      obtain ⟨hb', hc', hends', hrest'⟩ := valid_cons.1 h'
      rw [chars_cons, chars_cons] at heq
      obtain ⟨rfl, hbehind⟩ := hb.append_inj hb' (hc.solid _) (hc'.solid _) heq
      obtain ⟨rfl, hothers⟩ := hc.eq_of_chars hc' hends hends' hbehind
      cases ih hrest parts' hrest' hothers
      rfl

end Layout

/-! ## Reading components in a row -/

/-- Some components up to the end of the text, of which those marked are centered. -/
def scanRow : List Bool → Scan (List Coord)
  | [] => expectEnd >>= fun _ => pure []
  | centered :: flags => Coord.scan centered >>= fun coord => (coord :: ·) <$> scanRow flags

/-- Components are read in a row from those texts that are laid out with as many. -/
theorem scanRow_iff {t : Scanner} (hl : t.lexicon = lexicon) (flags : List Bool)
    (coords : List Coord) : (∃ t', scanRow flags t = .ok coords t') ↔
      ∃ d : Layout, d.Valid ∧ d.chars = t.rest ∧ d.components.length = flags.length ∧
        coords = List.zipWith Spelling.coord flags d.components := by
  induction flags generalizing t coords with
  | nil =>
    constructor
    · rintro ⟨t', h⟩
      obtain ⟨_, t₁, hend, h₁⟩ := bind_eq_ok_iff.1 h
      cases h₁
      obtain ⟨hblanks, rfl⟩ := expectEnd_eq_ok_iff.1 hend
      rw [hl] at hblanks
      exact ⟨⟨[], t.rest⟩, ⟨nofun, hblanks, nofun, nofun⟩, rfl, rfl, rfl⟩
    · rintro ⟨⟨parts, last⟩, hd, hchars, hlength, rfl⟩
      obtain rfl : parts = [] := by simpa [Layout.components] using hlength
      have hblanks : t.lexicon.Blanks t.rest := by
        rw [hl, ← hchars]
        exact hd.last
      exact ⟨_, bind_of_ok (expectEnd_eq_ok_iff.2 ⟨hblanks, rfl⟩)⟩
  | cons centered flags ih =>
    constructor
    · rintro ⟨t', h⟩
      obtain ⟨coord, t₁, hscan, h₁⟩ := bind_eq_ok_iff.1 h
      obtain ⟨coords, hrow, rfl⟩ := map_eq_ok_iff.1 h₁
      obtain ⟨b, c, rest, hrest, hb, hc, hends, rfl, rfl⟩ := (scan_eq_ok_iff hl).1 hscan
      rw [← List.append_assoc] at hrest
      obtain ⟨⟨parts, last⟩, hd, hchars, hlength, rfl⟩ :=
        (ih (t := t.advance (b ++ c.chars).length) hl coords).1 ⟨t', hrow⟩
      rw [Scanner.rest_advance_of_append hrest] at hchars
      refine ⟨⟨(b, c) :: parts, last⟩, ?_, ?_, congrArg (· + 1) hlength, rfl⟩
      · exact Layout.valid_cons.2 ⟨hb, hc, hchars ▸ hends, hd⟩
      · rw [Layout.chars_cons, hchars, hrest, List.append_assoc]
    · rintro ⟨⟨parts, last⟩, hd, hchars, hlength, rfl⟩
      cases parts with
      | nil => cases hlength
      | cons part parts =>
        obtain ⟨b, c⟩ := part
        obtain ⟨hb, hc, hends, hd⟩ := Layout.valid_cons.1 hd
        rw [Layout.chars_cons] at hchars
        have hscan : Coord.scan centered t = .ok (c.coord centered) _ :=
          (scan_eq_ok_iff hl).2 ⟨b, c, _, hchars.symm, hb, hc, hends, rfl, rfl⟩
        rw [← List.append_assoc] at hchars
        obtain ⟨t', hrow⟩ := (ih (t := t.advance (b ++ c.chars).length) hl _).2 ⟨⟨parts, last⟩, hd,
          (Scanner.rest_advance_of_append hchars.symm).symm, Nat.succ.inj hlength, rfl⟩
        exact ⟨t', (bind_of_ok hscan).trans (map_of_ok hrow)⟩

end Coord

open Coord

section

variable {text : String} {centered : Bool}

theorem PositionExpr.coords_scan :
    coords <$> PositionExpr.scan centered = scanRow [centered, false, centered] := by
  simp [PositionExpr.scan, scanRow, coords]

theorem RotationExpr.coords_scan : coords <$> RotationExpr.scan = scanRow [false, false] := by
  simp [RotationExpr.scan, scanRow, coords]

theorem PositionExpr.run_scan_iff {p : PositionExpr} :
    (PositionExpr.scan centered).run lexicon text = .ok p ↔
      ∃ d : Layout, d.Valid ∧ d.chars = text.toList ∧ ∃ x y z, d.components = [x, y, z] ∧
        p = ⟨x.coord centered, y.coord false, z.coord centered⟩ := by
  have hrow := scanRow_iff (t := .ofText lexicon text) rfl [centered, false, centered] p.coords
  simp only [← PositionExpr.coords_scan, map_eq_ok_iff] at hrow
  rw [Scan.run_eq_ok_iff]
  constructor
  · rintro ⟨t', h⟩
    obtain ⟨d, hd, hchars, hlength, hcoords⟩ := hrow.1 ⟨t', p, h, rfl⟩
    obtain ⟨x, y, z, hxyz⟩ := List.length_eq_three.1 hlength
    rw [hxyz] at hcoords
    obtain ⟨px, py, pz⟩ := p
    cases hcoords
    exact ⟨d, hd, hchars, x, y, z, hxyz, rfl⟩
  · rintro ⟨d, hd, hchars, x, y, z, hxyz, rfl⟩
    obtain ⟨t', ⟨px, py, pz⟩, h, hcoords⟩ :=
      hrow.2 ⟨d, hd, hchars, by rw [hxyz]; rfl, by rw [hxyz]; rfl⟩
    cases hcoords
    exact ⟨t', h⟩

theorem RotationExpr.run_scan_iff {r : RotationExpr} :
    RotationExpr.scan.run lexicon text = .ok r ↔
      ∃ d : Layout, d.Valid ∧ d.chars = text.toList ∧ ∃ x y, d.components = [x, y] ∧
        r = ⟨x.coord false, y.coord false⟩ := by
  have hrow := scanRow_iff (t := .ofText lexicon text) rfl [false, false] r.coords
  simp only [← RotationExpr.coords_scan, map_eq_ok_iff] at hrow
  rw [Scan.run_eq_ok_iff]
  constructor
  · rintro ⟨t', h⟩
    obtain ⟨d, hd, hchars, hlength, hcoords⟩ := hrow.1 ⟨t', r, h, rfl⟩
    obtain ⟨x, y, hxy⟩ := List.length_eq_two.1 hlength
    rw [hxy] at hcoords
    obtain ⟨yaw, pitch⟩ := r
    cases hcoords
    exact ⟨d, hd, hchars, x, y, hxy, rfl⟩
  · rintro ⟨d, hd, hchars, x, y, hxy, rfl⟩
    obtain ⟨t', ⟨yaw, pitch⟩, h, hcoords⟩ :=
      hrow.2 ⟨d, hd, hchars, by rw [hxy]; rfl, by rw [hxy]; rfl⟩
    cases hcoords
    exact ⟨t', h⟩

end

/-- A position is read from exactly those texts that are laid out with three components,
a rotation from those with two, and no text is laid out in two ways. Where positions are
centered, the same texts are read, with `x` and `z` moved if they are whole and absolute. -/
theorem coordinates_grammar (text : String) :
    (∀ p, PositionExpr.parse text = .ok p ↔
      ∃ d : Layout, d.Valid ∧ d.chars = text.toList ∧ ∃ x y z, d.components = [x, y, z] ∧
        p = ⟨x.coord false, y.coord false, z.coord false⟩) ∧
    (∀ p, PositionExpr.parseCentered text = .ok p ↔
      ∃ d : Layout, d.Valid ∧ d.chars = text.toList ∧ ∃ x y z, d.components = [x, y, z] ∧
        p = ⟨x.coord true, y.coord false, z.coord true⟩) ∧
    (∀ r, RotationExpr.parse text = .ok r ↔
      ∃ d : Layout, d.Valid ∧ d.chars = text.toList ∧ ∃ x y, d.components = [x, y] ∧
        r = ⟨x.coord false, y.coord false⟩) ∧
    {d : Layout | d.Valid ∧ d.chars = text.toList}.Subsingleton := by
  refine ⟨fun p => PositionExpr.run_scan_iff, fun p => PositionExpr.run_scan_iff,
    fun r => RotationExpr.run_scan_iff, ?_⟩
  rintro d ⟨hd, hchars⟩ d' ⟨hd', hchars'⟩
  exact Layout.eq_of_chars hd hd' (hchars.trans hchars'.symm)

end CommandChain
