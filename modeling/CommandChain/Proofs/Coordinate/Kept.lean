import CommandChain.Proofs.Coordinate.Grammar
import CommandChain.Proofs.Value.Kept

/-!
# Components of coordinates, read back

A component is written in plain notation behind its mark, so that it is read back
exactly if it is fractional or below `2 ^ 63`. A reader that moves whole absolute
components to the middle of their block moves them once more, unless they are so
great that this changes nothing (`readsBack_iff`).
-/

namespace CommandChain

namespace Coord

open Scan Number

/-- The component is read back from the whole of its text, as one equal to it. -/
def ReadsBack (centered : Bool) (c : Coord) : Prop :=
  ∃ c' t, Coord.scan centered (.ofText lexicon (toString c)) = .ok c' t ∧ t.rest = [] ∧ c' == c

variable {t t' : Scanner} {centered : Bool} {c : Char} {w : List Char} {coord : Coord}

/-! ## Whole texts -/

/-- A component is read from the whole of a text by what its first character says. -/
theorem scan_whole (ht : t.rest = c :: w) (hc : c ∉ t.lexicon.whitespace) :
    (∃ t', Coord.scan centered t = .ok coord t' ∧ t'.rest = []) ↔
      ∃ t', scanFrom centered c t = .ok coord t' ∧ t'.rest = [] := by
  have hpeek : peek true t = .ok (some c) t := by
    have hread : Reads t.lexicon (peek true) [] (c :: w) (some c) :=
      reads_peek (t.lexicon.margin_nil true) fun _ c' hc' => by cases hc'; exact hc
    rw [hread t rfl ht, List.length_nil, Scanner.advance_zero]
  have hscan : Coord.scan centered t =
      (scanFrom centered c >>= fun coord => ending >>= fun _ => pure coord) t := by
    rw [scan_eq, bind_of_ok hpeek]
    rfl
  rw [hscan]
  constructor
  · rintro ⟨t', h, hrest⟩
    obtain ⟨coord', t₁, hread, h₁⟩ := bind_eq_ok_iff.1 h
    obtain ⟨_, t₂, hend, h₂⟩ := bind_eq_ok_iff.1 h₁
    cases h₂
    obtain ⟨rfl, -⟩ := ending_eq_ok_iff.1 hend
    exact ⟨_, hread, hrest⟩
  · rintro ⟨t', h, hrest⟩
    refine ⟨t', ?_, hrest⟩
    rw [bind_of_ok h, bind_of_ok (ending_eq_ok_iff.2 ⟨rfl, by simp [hrest]⟩)]
    rfl

/-! ## Numbers -/

/-- The text is one numeral, and read as the number. -/
def Spells (text : List Char) (number : Number) : Prop :=
  ∃ n : Numeral, n.Valid ∧ text = n.chars ∧ numberOf n = some number

theorem number_whole {number : Number} :
    (∃ t', Scan.number t = .ok number t' ∧ t'.rest = []) ↔ Spells t.rest number := by
  constructor
  · rintro ⟨t', h, hrest⟩
    obtain ⟨n, rest, hvalid, htext, rfl, hvalue⟩ := number_ok h
    rw [Scanner.rest_advance_of_append htext] at hrest
    exact ⟨n, hvalid, by rw [htext, hrest, List.append_nil], hvalue⟩
  · rintro ⟨n, hvalid, htext, hvalue⟩
    have hread : Reads t.lexicon Scan.number n.chars [] number :=
      reads_number hvalid hvalue ⟨nofun, fun _ => rfl⟩
    refine ⟨_, hread t rfl (by rw [htext, List.append_nil]), ?_⟩
    rw [Scanner.rest_advance, htext, List.drop_length]

theorem numberOrZero_whole {x : Float} : (∃ t', numberOrZero t = .ok x t' ∧ t'.rest = []) ↔
    (t.rest = [] ∧ x = 0) ∨ ∃ number, Spells t.rest number ∧ x = number.value := by
  constructor
  · rintro ⟨t', h, hrest⟩
    rcases numberOrZero_ok h with ⟨rfl, rfl⟩ | ⟨m, hm, rfl⟩
    · exact .inl ⟨hrest, rfl⟩
    · exact .inr ⟨m, number_whole.1 ⟨t', hm, hrest⟩, rfl⟩
  · rintro (⟨hrest, rfl⟩ | ⟨m, ⟨n, hvalid, htext, hvalue⟩, rfl⟩)
    · have hread : Reads t.lexicon numberOrZero [] [] 0 := reads_numberOrZero_nil nofun
      refine ⟨_, hread t rfl hrest, ?_⟩
      rw [Scanner.rest_advance, hrest, List.drop_nil]
    · have hread : Reads t.lexicon numberOrZero n.chars [] m.value :=
        reads_numberOrZero_numeral hvalid hvalue ⟨nofun, fun _ => rfl⟩
      refine ⟨_, hread t rfl (by rw [htext, List.append_nil]), ?_⟩
      rw [Scanner.rest_advance, htext, List.drop_length]

/-! ## Components -/

theorem plain_not_mark (x : Float) : ∀ c ∈ plain x, c ∉ lexicon.whitespace ∧ c ≠ '~' ∧ c ≠ '^' := by
  intro c hc
  have hmarks : ∀ c ∈ [' ', '\t', '~', '^'], isFloatChar c = false :=
    fun c hc => by fin_cases hc <;> rfl
  have hnot : c ∉ [' ', '\t', '~', '^'] := fun h => by
    have hchar := plain_chars x c hc
    rw [hmarks c h] at hchar
    cases hchar
  refine ⟨fun h => hnot ?_, fun h => hnot ?_, fun h => hnot ?_⟩
  · exact List.mem_append_left ['~', '^'] h
  · simp [h]
  · simp [h]

/-- What an absolute component is read as. -/
def placed (centered : Bool) (number : Number) : Float :=
  if centered && number.integer.isSome then number.value + 0.5 else number.value

/-- An absolute component is read back from its number. -/
theorem readsBack_absolute {x : Float} : ReadsBack centered (absolute x) ↔
    ∃ number, Spells (plain x) number ∧ placed centered number == x := by
  have htext : (Scanner.ofText lexicon (toString (absolute x))).rest = plain x :=
    String.toList_ofList
  cases hplain : plain x with
  | nil => exact absurd hplain (plain_ne_nil x)
  | cons c w =>
    obtain ⟨hblank, htilde, hcaret⟩ := plain_not_mark x c (by rw [hplain]; exact List.mem_cons_self)
    rw [hplain] at htext
    have hfrom : scanFrom centered c = absolute <$> absoluteValue centered := by
      unfold scanFrom
      split <;> simp_all
    constructor
    · rintro ⟨c', t, hscan, hrest, heq⟩
      obtain ⟨t₁, hread, hrest⟩ := (scan_whole htext hblank).1 ⟨t, hscan, hrest⟩
      rw [hfrom] at hread
      obtain ⟨y, hy, rfl⟩ := map_eq_ok_iff.1 hread
      obtain ⟨m, t₂, hm, hy₁⟩ := bind_eq_ok_iff.1 hy
      cases hy₁
      exact ⟨m, by rw [← htext]; exact number_whole.1 ⟨_, hm, hrest⟩, heq⟩
    · rintro ⟨m, hspells, heq⟩
      rw [← htext] at hspells
      obtain ⟨t₁, hm, hrest⟩ := number_whole.2 hspells
      have hread : scanFrom centered c (.ofText lexicon (toString (absolute x))) =
          .ok (absolute (placed centered m)) t₁ := by
        rw [hfrom]
        refine map_of_ok ?_
        exact bind_of_ok hm
      obtain ⟨t, hscan, hrest⟩ := (scan_whole htext hblank).2 ⟨t₁, hread, hrest⟩
      exact ⟨_, t, hscan, hrest, heq⟩

/-- The digits behind a mark. -/
def offsetDigits (x : Float) : List Char := if x == 0 then [] else plain x

theorem toList_marked (mark : String) (x : Float) :
    (marked mark x).toList = mark.toList ++ offsetDigits x := by
  unfold marked offsetDigits Number.text
  split <;> simp

theorem mk_beq (kind : CoordKind) (x y : Float) :
    ((⟨kind, x⟩ : Coord) == ⟨kind, y⟩) = (x == y) := by
  change (kind == kind && x == y) = (x == y)
  rw [BEq.rfl, Bool.true_and]

/-- A marked component is read back from its number, or from the mark alone. -/
theorem readsBack_of_mark {kind : CoordKind} {mark : Char} {x : Float}
    (htext : (toString (⟨kind, x⟩ : Coord)).toList = mark :: offsetDigits x)
    (hblank : mark ∉ lexicon.whitespace)
    (hfrom : scanFrom centered mark = next false >>= fun _ => Coord.mk kind <$> numberOrZero) :
    ReadsBack centered ⟨kind, x⟩ ↔
      x == 0 ∨ ∃ number, Spells (plain x) number ∧ number.value == x := by
  generalize hs : Scanner.ofText lexicon (toString (⟨kind, x⟩ : Coord)) = s
  have hrest : s.rest = mark :: offsetDigits x := by rw [← hs]; exact htext
  have hblank : mark ∉ s.lexicon.whitespace := by rw [← hs]; exact hblank
  have hdigits : (s.advance 1).rest = offsetDigits x := by
    rw [Scanner.rest_advance, hrest]
    rfl
  have hread : scanFrom centered mark s = (Coord.mk kind <$> numberOrZero) (s.advance 1) := by
    have hnext : Reads s.lexicon (next false) [mark] (offsetDigits x) (some mark) := reads_next mark
    rw [hfrom, bind_of_ok (hnext s rfl hrest)]
    rfl
  have hback : ReadsBack centered ⟨kind, x⟩ ↔
      ∃ y, (∃ t, numberOrZero (s.advance 1) = .ok y t ∧ t.rest = []) ∧ y == x := by
    unfold ReadsBack
    rw [hs]
    constructor
    · rintro ⟨c', t, hscan, hnil, heq⟩
      obtain ⟨t₁, hmark, hnil⟩ := (scan_whole hrest hblank).1 ⟨t, hscan, hnil⟩
      rw [hread] at hmark
      obtain ⟨y, hy, rfl⟩ := map_eq_ok_iff.1 hmark
      exact ⟨y, ⟨t₁, hy, hnil⟩, by rwa [mk_beq] at heq⟩
    · rintro ⟨y, ⟨t₁, hy, hnil⟩, heq⟩
      obtain ⟨t, hscan, hnil⟩ := (scan_whole hrest hblank).2
        ⟨t₁, by rw [hread]; exact map_of_ok hy, hnil⟩
      exact ⟨⟨kind, y⟩, t, hscan, hnil, by rwa [mk_beq]⟩
  rw [hback]
  simp only [numberOrZero_whole, hdigits]
  by_cases hzero : x == 0
  · exact iff_of_true ⟨0, .inl ⟨if_pos hzero, rfl⟩, BEq.symm hzero⟩ (.inl hzero)
  · have hplain : offsetDigits x = plain x := if_neg hzero
    rw [hplain]
    constructor
    · rintro ⟨y, ⟨hnil, -⟩ | ⟨m, hspells, rfl⟩, heq⟩
      · exact absurd hnil (plain_ne_nil x)
      · exact .inr ⟨m, hspells, heq⟩
    · rintro (h | ⟨m, hspells, heq⟩)
      · exact absurd h hzero
      · exact ⟨_, .inr ⟨m, hspells, rfl⟩, heq⟩

theorem readsBack_relative (centered : Bool) (x : Float) : ReadsBack centered (relative x) ↔
    x == 0 ∨ ∃ number, Spells (plain x) number ∧ number.value == x :=
  readsBack_of_mark (toList_marked "~" x) (by decide) rfl

theorem readsBack_localAxis (centered : Bool) (x : Float) : ReadsBack centered (localAxis x) ↔
    x == 0 ∨ ∃ number, Spells (plain x) number ∧ number.value == x :=
  readsBack_of_mark (toList_marked "^" x) (by decide) rfl

/-! ## Exactly which components are read back -/

/-- What is read from a number in plain notation, if it is read. -/
theorem exists_spells_iff (x : Float) (P : Float → Bool → Prop) :
    (∃ number, Spells (plain x) number ∧ P number.value number.integer.isSome) ↔
      x.isFinite ∧ (isWhole x → x.abs < 9223372036854775808) ∧ P x (isWhole x) := by
  constructor
  · rintro ⟨m, ⟨n', hn', hchars', hvalue'⟩, hP⟩
    have hx := isFinite_of_plain hn' hchars'
    obtain ⟨m', e, h⟩ := exists_magnitude hx
    obtain ⟨n, hn⟩ := exists_plain h
    obtain rfl := hn.valid.eq_of_chars hn' (hn.chars.symm.trans hchars')
    refine ⟨hx, hn.fits hvalue', ?_⟩
    obtain ⟨integer, hvalue, hinteger⟩ := hn.exists_number (hn.fits hvalue')
    rw [hvalue] at hvalue'
    cases hvalue'
    rwa [← hinteger]
  · rintro ⟨hx, hsmall, hP⟩
    obtain ⟨m', e, h⟩ := exists_magnitude hx
    obtain ⟨n, hn⟩ := exists_plain h
    obtain ⟨integer, hvalue, hinteger⟩ := hn.exists_number hsmall
    exact ⟨_, ⟨n, hn.valid, hn.chars, hvalue⟩, by rwa [← hinteger] at hP⟩

theorem marked_iff (x : Float) :
    (x == 0 ∨ ∃ number, Spells (plain x) number ∧ number.value == x) ↔
      x.isFinite ∧ (isWhole x → x.abs < 9223372036854775808) := by
  rw [exists_spells_iff x fun value _ => value == x]
  constructor
  · rintro (hzero | ⟨hx, hsmall, -⟩)
    · obtain ⟨hx, hsmall⟩ := finite_of_beq_zero hzero
      exact ⟨hx, fun _ => hsmall⟩
    · exact ⟨hx, hsmall⟩
  · rintro ⟨hx, hsmall⟩
    exact .inr ⟨hx, hsmall, beq_self hx⟩

/-- A component is read back exactly if it is fractional or below `2 ^ 63`; the reader that
moves whole absolute components must leave it where it is. -/
theorem readsBack_iff (centered : Bool) (c : Coord) : ReadsBack centered c ↔
    c.value.isFinite ∧ (isWhole c.value → c.value.abs < 9223372036854775808 ∧
      (centered → c.kind = .absolute → c.value + 0.5 == c.value)) := by
  obtain ⟨kind, x⟩ := c
  cases kind with
  | absolute =>
    have hplaced := exists_spells_iff x fun value whole =>
      (if centered && whole then value + 0.5 else value) == x
    refine readsBack_absolute.trans (hplaced.trans ?_)
    dsimp only
    refine and_congr_right fun hx => ?_
    have hself := beq_self hx
    cases isWhole x <;> cases centered <;> simp [hself]
  | relative =>
    refine (readsBack_relative centered x).trans ((marked_iff x).trans ?_)
    simp
  | localAxis =>
    refine (readsBack_localAxis centered x).trans ((marked_iff x).trans ?_)
    simp

end Coord

open Scan Number

/-- Which numbers keep their value and kind when they are written and read again: a float as
long as it is written with its point, an offset or a component as long as it is no integer
beyond 64 bits, and none of them as an infinity. -/
theorem number_readsBack_iff (x : Float) :
    (ArgValue.ReadsBack (.float x) ↔ x.isFinite ∧ (isWhole x → x.abs < 1e15)) ∧
      (ArgValue.ReadsBack (.relative x) ↔
        x.isFinite ∧ (isWhole x → x.abs < 9223372036854775808)) ∧
      ∀ (kind : CoordKind) (centered : Bool), Coord.ReadsBack centered ⟨kind, x⟩ ↔
        x.isFinite ∧ (isWhole x → x.abs < 9223372036854775808 ∧
          (centered → kind = .absolute → x + 0.5 == x)) :=
  ⟨ArgValue.readsBack_float_iff x, ArgValue.readsBack_relative_iff x,
    fun kind centered => Coord.readsBack_iff centered ⟨kind, x⟩⟩

/-- A number of `10 ^ 15` or more loses the point it was written with. -/
theorem float_loses_point : ∃ x t,
    ArgValue.scan (.ofText ArgValue.lexicon "1000000000000000.0") = .ok (.float x) t ∧
      ¬ ArgValue.ReadsBack (.float x) := by
  let n : Numeral := ⟨none, "1000000000000000".toList, some ['0']⟩
  have hread : Numeral.read "1000000000000000.0".toList = some n := by decide
  have hchars : "1000000000000000.0".toList = n.chars := by decide
  have hscan := ArgValue.readsAs_numeral (n := n) (x := n.toFloat)
    (Numeral.valid_of_read hread).1 rfl
  rw [← hchars] at hscan
  obtain ⟨t, hscan⟩ := ArgValue.scan_of_readsAs hscan
  refine ⟨n.toFloat, t, hscan, ?_⟩
  rw [ArgValue.readsBack_float_iff]
  have hgreat : isWhole n.toFloat ∧ ¬ n.toFloat.abs < 1e15 := by decide +kernel
  exact fun h => hgreat.2 (h.2 hgreat.1)

end CommandChain
