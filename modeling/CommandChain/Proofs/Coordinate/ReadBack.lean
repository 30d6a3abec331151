import CommandChain.Proofs.Coordinate.Kept
import Mathlib.Data.List.Infix

/-!
# Positions and rotations, read back

A row of components is written with a single blank between neighbours, and a mark stands
alone where the offset is zero. Neither makes the reader take two components for one or
put a component to the mark before it: a component is a word (`Word`), and the text tells
where a word ends (`Word.append_inj`). So a row is read back exactly if each component is
read back from its own text (`rowReadsBack_iff`).

A component is read back exactly if the value that stands in its text is
(`readsBack_iff_rereads`), which settles positions and rotations:
`coordinates_readsBack_iff`.
-/

namespace CommandChain

namespace Coord

open Scan Number

/-! ## Words -/

/-- A character that is no blank, and behind it characters that do not end a component. -/
def Word (s : List Char) : Prop :=
  ∃ c w, s = c :: w ∧ c ∉ lexicon.whitespace ∧
    ∀ c' ∈ w, ¬ (c' ∈ lexicon.whitespace ∨ c' = '~' ∨ c' = '^')

section

variable {s s' follow follow' : List Char} {c : Char}

/-- A text tells the word that it begins with, if the word may end there. -/
theorem Word.append_inj (h : Word s) (h' : Word s') (hf : Ends follow) (hf' : Ends follow')
    (heq : s ++ follow = s' ++ follow') : s = s' ∧ follow = follow' := by
  obtain ⟨c, w, rfl, -, hw⟩ := h
  obtain ⟨c', w', rfl, -, hw'⟩ := h'
  obtain ⟨rfl, hbehind⟩ : c = c' ∧ w ++ follow = w' ++ follow' := List.cons.inj heq
  have hle : w <+: w' := prefix_of_append hf' hw ⟨follow, hbehind⟩
  have hge : w' <+: w := prefix_of_append hf hw' ⟨follow', hbehind.symm⟩
  obtain rfl : w = w' := hle.eq_of_length_le hge.length_le
  exact ⟨rfl, List.append_cancel_left hbehind⟩

theorem Word.solid (h : Word s) (follow : List Char) : lexicon.Solid (s ++ follow) := by
  obtain ⟨c, w, rfl, hc, -⟩ := h
  intro c' hc'
  cases hc'
  exact hc

theorem goesOn_of_startsNumber (h : ArgValue.startsNumber c) :
    ¬ (c ∈ lexicon.whitespace ∨ c = '~' ∨ c = '^') := by
  intro hstop
  have hmem : c ∈ lexicon.whitespace ++ ['~', '^'] := by simpa using hstop
  rw [startsNumber_of_mark c hmem] at h
  cases h

theorem Spelling.Valid.word {spelling : Spelling} (h : spelling.Valid) : Word spelling.chars := by
  have hnumber : ∀ c ∈ numberChars spelling.number,
      ¬ (c ∈ lexicon.whitespace ∨ c = '~' ∨ c = '^') := by
    cases hn : spelling.number with
    | none => nofun
    | some n =>
      exact fun c hc => goesOn_of_startsNumber ((h.number n hn).1.startsNumber c hc)
  obtain ⟨c, w, hchars, hblank, -⟩ := h.head
  refine ⟨c, w, hchars, hblank, fun c' hc' => hnumber c' ?_⟩
  obtain ⟨kind, number⟩ := spelling
  cases kind with
  | absolute =>
    have hw : numberChars number = c :: w := hchars
    rw [hw]
    exact List.mem_cons_of_mem c hc'
  | relative => cases hchars; exact hc'
  | localAxis => cases hchars; exact hc'

theorem word_marked {mark : Char} (hmark : mark ∉ lexicon.whitespace) (x : Float) :
    Word (mark :: offsetDigits x) := by
  refine ⟨mark, offsetDigits x, rfl, hmark, fun c hc => ?_⟩
  unfold offsetDigits at hc
  split at hc
  · cases hc
  · simpa using plain_not_mark x c hc

theorem word_text (coord : Coord) : Word (toString coord).toList := by
  obtain ⟨kind, x⟩ := coord
  cases kind with
  | absolute =>
    have htext : (toString (absolute x)).toList = plain x := String.toList_ofList
    refine htext ▸ ?_
    cases hplain : plain x with
    | nil => exact absurd hplain (plain_ne_nil x)
    | cons c w =>
      have hchars := plain_not_mark x
      rw [hplain] at hchars
      obtain ⟨hc, hw⟩ := List.forall_mem_cons.1 hchars
      exact ⟨c, w, rfl, hc.1, fun c' hc' => by simpa using hw c' hc'⟩
  | relative => exact toList_marked "~" x ▸ word_marked (by decide) x
  | localAxis => exact toList_marked "^" x ▸ word_marked (by decide) x

end

/-! ## Components -/

/-- A component is read back exactly if its text spells one equal to it. -/
theorem readsBack_iff_spelled {centered : Bool} {coord : Coord} : ReadsBack centered coord ↔
    ∃ s : Spelling, s.Valid ∧ s.chars = (toString coord).toList ∧ s.coord centered == coord := by
  constructor
  · rintro ⟨coord', t, hscan, hnil, heq⟩
    obtain ⟨b, s, rest, htext, hb, hs, -, rfl, rfl⟩ := (scan_eq_ok_iff rfl).1 hscan
    have htext : (toString coord).toList = b ++ (s.chars ++ rest) := htext
    obtain rfl : b = [] := by
      have hsolid := (word_text coord).solid []
      rw [List.append_nil, htext] at hsolid
      exact hb.eq_nil hsolid
    have hsplit : (Scanner.ofText lexicon (toString coord)).rest = s.chars ++ rest := htext
    obtain rfl : rest = [] := (Scanner.rest_advance_of_append hsplit).symm.trans hnil
    exact ⟨s, hs, by rw [htext, List.append_nil, List.nil_append], heq⟩
  · rintro ⟨s, hs, hchars, heq⟩
    have hends : Ends [] := nofun
    have hread : Reads lexicon (Coord.scan centered) s.chars [] (s.coord centered) :=
      reads_scan (b := []) hs nofun hends
    have htext : (Scanner.ofText lexicon (toString coord)).rest = s.chars ++ [] := by
      rw [hchars, List.append_nil]
      rfl
    exact ⟨_, _, hread _ rfl htext, Scanner.rest_advance_of_append htext, heq⟩

/-- The value stands in the text of the component. -/
def Printed (coord : Coord) : Prop := coord.kind = .absolute ∨ ¬ coord.value == 0

/-- The text of the value is read as a number, all of it, and equal to the value. -/
def Rereads (x : Float) : Prop :=
  ∃ number t, Scan.number (.ofText lexicon (Number.text x)) = .ok number t ∧ t.rest = [] ∧
    number.value == x

theorem rereads_iff {x : Float} :
    Rereads x ↔ ∃ number, Spells (plain x) number ∧ number.value == x := by
  have htext : (Scanner.ofText lexicon (Number.text x)).rest = plain x := String.toList_ofList
  refine exists_congr fun number => ?_
  rw [← htext, ← number_whole]
  exact ⟨fun ⟨t, hread, hnil, heq⟩ => ⟨⟨t, hread, hnil⟩, heq⟩,
    fun ⟨⟨t, hread, hnil⟩, heq⟩ => ⟨t, hread, hnil, heq⟩⟩

/-- A component is read back exactly if its value is, as far as it is printed. -/
theorem readsBack_iff_rereads (coord : Coord) :
    ReadsBack false coord ↔ (coord.Printed → Rereads coord.value) := by
  obtain ⟨kind, x⟩ := coord
  have hmarked {kind : CoordKind} (hkind : kind ≠ .absolute) :
      (x == 0 ∨ Rereads x) ↔ (Printed ⟨kind, x⟩ → Rereads x) := by
    simp only [Printed, hkind, false_or]
    exact or_iff_not_imp_left
  rw [rereads_iff] at hmarked ⊢
  cases kind with
  | absolute => exact readsBack_absolute.trans ⟨fun h _ => h, fun h => h (.inl rfl)⟩
  | relative => exact (readsBack_relative false x).trans (hmarked nofun)
  | localAxis => exact (readsBack_localAxis false x).trans (hmarked nofun)

/-! ## Rows -/

/-- The components with `sep` before the first of them, and a blank between neighbours. -/
def rowChars (sep : List Char) : List Coord → List Char
  | [] => []
  | coord :: coords => sep ++ ((toString coord).toList ++ rowChars [' '] coords)

theorem ends_rowChars (coords : List Coord) : Ends (rowChars [' '] coords) := by
  cases coords with
  | nil => nofun
  | cons coord coords => intro c hc; cases hc; exact .inl (by decide)

/-- What is read as a row has components equal to these. -/
def RowReadsBack (coords : List Coord) (t : Scanner) : Prop :=
  ∃ coords' t', scanRow (coords.map fun _ => false) t = .ok coords' t' ∧
    List.Forall₂ (fun coord' coord => coord' == coord) coords' coords

section

variable {sep : List Char} {coord : Coord} {coords : List Coord} {t : Scanner}

theorem rowReadsBack_nil (hl : t.lexicon = lexicon) (hrest : lexicon.Blanks t.rest) :
    RowReadsBack [] t :=
  ⟨[], _, bind_of_ok (expectEnd_eq_ok_iff.2 ⟨hl ▸ hrest, rfl⟩), .nil⟩

/-- The components behind the first one are read from behind its text: where this text
ends is where its word ends. -/
theorem rowReadsBack_cons_iff (hsep : lexicon.Blanks sep) (hl : t.lexicon = lexicon)
    (ht : t.rest = rowChars sep (coord :: coords)) : RowReadsBack (coord :: coords) t ↔
      ReadsBack false coord ∧
        RowReadsBack coords (t.advance (sep ++ (toString coord).toList).length) := by
  rw [readsBack_iff_spelled]
  constructor
  · rintro ⟨_, t', h, hall⟩
    obtain ⟨coord', t₁, hscan, h₁⟩ := bind_eq_ok_iff.1 h
    obtain ⟨coords', hscanRow, rfl⟩ := map_eq_ok_iff.1 h₁
    obtain ⟨heq, hothers⟩ := List.forall₂_cons.1 hall
    obtain ⟨b, s, rest, htext, hb, hs, hends, rfl, rfl⟩ := (scan_eq_ok_iff hl).1 hscan
    rw [ht, rowChars] at htext
    obtain ⟨rfl, hbehind⟩ := hsep.append_inj hb ((word_text coord).solid _) (hs.solid _) htext
    obtain ⟨hchars, rfl⟩ :=
      (word_text coord).append_inj hs.word (ends_rowChars coords) hends hbehind
    exact ⟨⟨s, hs, hchars.symm, heq⟩, coords', t', hchars ▸ hscanRow, hothers⟩
  · rintro ⟨⟨s, hs, hchars, heq⟩, coords', t', hscanRow, hall⟩
    have hscan : Coord.scan false t = .ok (s.coord false) _ :=
      (scan_eq_ok_iff hl).2 ⟨sep, s, _, by rw [ht, rowChars, hchars], hsep, hs,
        ends_rowChars coords, rfl, rfl⟩
    rw [hchars] at hscan
    exact ⟨_, t', (bind_of_ok hscan).trans (map_of_ok hscanRow), .cons heq hall⟩

/-- A row is read back from its text exactly if each component is from its own. -/
theorem rowReadsBack_iff (hsep : lexicon.Blanks sep) (hl : t.lexicon = lexicon)
    (ht : t.rest = rowChars sep coords) :
    RowReadsBack coords t ↔ ∀ coord ∈ coords, ReadsBack false coord := by
  induction coords generalizing sep t with
  | nil => exact iff_of_true (rowReadsBack_nil hl (by rw [ht]; nofun)) nofun
  | cons coord coords ih =>
    have hrest : t.rest = (sep ++ (toString coord).toList) ++ rowChars [' '] coords := by
      rw [ht, rowChars, List.append_assoc]
    rw [rowReadsBack_cons_iff hsep hl ht, List.forall_mem_cons]
    exact and_congr_right fun _ => ih (List.forall_mem_singleton.2 (by decide)) hl
      (Scanner.rest_advance_of_append hrest)

end

/-- Equal components are of the same kinds. -/
theorem kinds_of_beq {coords coords' : List Coord}
    (h : List.Forall₂ (fun coord coord' => coord == coord') coords coords') :
    coords.map Coord.kind = coords'.map Coord.kind := by
  induction h with
  | nil => rfl
  | @cons coord coord' coords coords' heq _ ih =>
    have hkind : coord.kind == coord'.kind := (Bool.and_eq_true_iff.1 heq).1
    rw [List.map_cons, List.map_cons, eq_of_beq hkind, ih]

end Coord

open Coord

/-! ## Positions and rotations -/

section

variable {p p' : PositionExpr} {r r' : RotationExpr}

theorem PositionExpr.beq_iff :
    p == p' ↔ List.Forall₂ (fun coord coord' => coord == coord') p.coords p'.coords := by
  have hbeq : (p == p') = (p.x == p'.x && (p.y == p'.y && p.z == p'.z)) := rfl
  simp [hbeq, coords]

theorem RotationExpr.beq_iff :
    r == r' ↔ List.Forall₂ (fun coord coord' => coord == coord') r.coords r'.coords := by
  have hbeq : (r == r') = (r.yaw == r'.yaw && r.pitch == r'.pitch) := rfl
  simp [hbeq, coords]

theorem PositionExpr.readsBack_iff : (∃ p', PositionExpr.parse (toString p) = .ok p' ∧ p' == p) ↔
    ∀ coord ∈ p.coords, Coord.ReadsBack false coord := by
  have hchars : (toString p).toList = rowChars [] p.coords := by
    simp [toString, PositionExpr.toString, rowChars, coords]
  have hrow := rowReadsBack_iff (t := .ofText lexicon (toString p))
    (lexicon.margin_nil true).1 rfl hchars
  have hscan : scanRow (p.coords.map fun _ => false) = coords <$> PositionExpr.scan false :=
    PositionExpr.coords_scan.symm
  rw [← hrow, RowReadsBack, hscan]
  simp only [PositionExpr.parse, Scan.run_eq_ok_iff, map_eq_ok_iff, PositionExpr.beq_iff]
  constructor
  · rintro ⟨p', ⟨t, h⟩, heq⟩
    exact ⟨p'.coords, t, ⟨p', h, rfl⟩, heq⟩
  · rintro ⟨_, t, ⟨p', h, rfl⟩, heq⟩
    exact ⟨p', ⟨t, h⟩, heq⟩

theorem RotationExpr.readsBack_iff : (∃ r', RotationExpr.parse (toString r) = .ok r' ∧ r' == r) ↔
    ∀ coord ∈ r.coords, Coord.ReadsBack false coord := by
  have hchars : (toString r).toList = rowChars [] r.coords := by
    simp [toString, RotationExpr.toString, rowChars, coords]
  have hrow := rowReadsBack_iff (t := .ofText lexicon (toString r))
    (lexicon.margin_nil true).1 rfl hchars
  have hscan : scanRow (r.coords.map fun _ => false) = coords <$> RotationExpr.scan :=
    RotationExpr.coords_scan.symm
  rw [← hrow, RowReadsBack, hscan]
  simp only [RotationExpr.parse, Scan.run_eq_ok_iff, map_eq_ok_iff, RotationExpr.beq_iff]
  constructor
  · rintro ⟨r', ⟨t, h⟩, heq⟩
    exact ⟨r'.coords, t, ⟨r', h, rfl⟩, heq⟩
  · rintro ⟨_, t, ⟨r', h, rfl⟩, heq⟩
    exact ⟨r', ⟨t, h⟩, heq⟩

end

/-- A position and a rotation are read back from their text, as ones equal to them with
components of the same kinds, exactly if each value that stands in the text is read back
on its own. -/
theorem coordinates_readsBack_iff :
    (∀ p : PositionExpr,
      (∃ p', PositionExpr.parse (toString p) = .ok p' ∧ p' == p ∧
        p'.coords.map Coord.kind = p.coords.map Coord.kind) ↔
      ∀ coord ∈ p.coords, coord.Printed → Rereads coord.value) ∧
    ∀ r : RotationExpr,
      (∃ r', RotationExpr.parse (toString r) = .ok r' ∧ r' == r ∧
        r'.coords.map Coord.kind = r.coords.map Coord.kind) ↔
      ∀ coord ∈ r.coords, coord.Printed → Rereads coord.value := by
  simp only [← readsBack_iff_rereads, ← PositionExpr.readsBack_iff, ← RotationExpr.readsBack_iff]
  refine ⟨fun p => exists_congr fun p' => and_congr_right fun _ => and_iff_left_of_imp fun h => ?_,
    fun r => exists_congr fun r' => and_congr_right fun _ => and_iff_left_of_imp fun h => ?_⟩
  · exact kinds_of_beq (PositionExpr.beq_iff.1 h)
  · exact kinds_of_beq (RotationExpr.beq_iff.1 h)

end CommandChain
