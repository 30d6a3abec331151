import CommandChain.Proofs.Scanner.Range
import CommandChain.Proofs.Value.Text
import Mathlib.Data.Bool.AllAny

/-!
# Tokens read back

Booleans, integers, ranges and bare strings are read from their own texts wherever a
value may end behind them (`Ends`). A range begins like a number and a string may
begin like a boolean; the reader then goes back to where the token starts.
-/

namespace CommandChain.ArgValue

open Scan

/-- A value may end before the text. -/
def Ends (follow : List Char) : Prop :=
  ∀ c ∈ follow.head?, c ∈ lexicon.whitespace ∨ c ∈ stops

theorem Ends.clear {follow : List Char} (h : Ends follow) : Numeral.Clear follow := by
  intro c hc
  cases hs : startsNumber c with
  | false => rfl
  | true =>
    have hplain := plain_of_startsNumber hs
    exact (h c hc).elim (fun hb => absurd hb hplain.1) fun hm => absurd (stops_subset hm) hplain.2

theorem longest_dots_of_clear {follow : List Char} (h : Numeral.Clear follow) :
    longest [".."] follow = none := by
  rw [longest_singleton (by decide), if_neg]
  intro hp
  cases follow with
  | nil => simp at hp
  | cons c follow =>
    have hdot : '.' = c := by simpa using (List.isPrefixOf_iff_prefix.1 hp).head
    exact absurd (h c rfl) (by rw [← hdot]; decide)

/-- A word at the start of a text before `follow` stands at the start of the text alone. -/
theorem Ends.prefix_of_append {word s follow : List Char} (h : Ends follow)
    (hword : ∀ c ∈ word, c ∉ lexicon.whitespace ∧ c ∉ stops) (hp : word <+: s ++ follow) :
    word <+: s :=
  Scan.prefix_of_append h (fun c hc hend => hend.elim (hword c hc).1 (hword c hc).2) hp

theorem reads_atTerminator {follow : List Char} :
    Reads lexicon atTerminator [] follow
      (follow.head?.all fun c => lexicon.whitespace.contains c || stops.contains c) := by
  refine Reads.bind_nil reads_peek_false ?_
  cases follow with
  | nil => exact reads_pure true
  | cons c follow =>
    refine Reads.get_bind fun t hl ht => ?_
    rw [List.length_nil, Scanner.advance_zero, ← hl]
    rfl

theorem Ends.reads {follow : List Char} (h : Ends follow) :
    Reads lexicon atTerminator [] follow true := by
  have hall : (follow.head?.all fun c =>
      lexicon.whitespace.contains c || stops.contains c) = true := by
    cases follow with
    | nil => rfl
    | cons c follow => simpa using h c rfl
  rw [← hall]
  exact reads_atTerminator

theorem Ends.terminated {follow : List Char} (h : Ends follow) (v : ArgValue) :
    Reads lexicon (terminated v) [] follow v :=
  h.reads.bind_pure (reads_pure v)

/-! ## Bare text -/

/-- The string is read as a whole where bare text is read. -/
structure Unbroken (s : List Char) : Prop where
  ne_nil : s ≠ []
  chars : ∀ c ∈ s, c ∉ lexicon.whitespace ∧ c ∉ stops ∧ c ∉ lexicon.symbols

theorem Bare.unbroken {s : List Char} (hs : Bare s) : Unbroken s where
  ne_nil := hs.ne_nil
  chars c hc := by
    have hsymbols : lexicon.symbols ⊆ quoteTriggers := by decide
    obtain ⟨hblank, htrigger⟩ := hs.chars c hc
    exact ⟨hblank, fun h => htrigger (stops_subset h), fun h => htrigger (hsymbols h)⟩

section

variable {s t follow : List Char}

theorem Unbroken.reads (hs : Unbroken s) (h : Ends follow) :
    Reads lexicon bareText s follow (text (String.ofList s)) :=
  (reads_unquoted hs.ne_nil hs.chars h).map

/-- No value may end inside the string. -/
theorem Unbroken.goesOn (hs : Unbroken (s ++ t)) (ht : t ≠ []) (follow : List Char) :
    Reads lexicon atTerminator [] (t ++ follow) false := by
  have hgoesOn : ((t ++ follow).head?.all fun c =>
      lexicon.whitespace.contains c || stops.contains c) = false := by
    cases t with
    | nil => exact absurd rfl ht
    | cons c t =>
      have hc := hs.chars c (by simp)
      simp [hc.1, hc.2.1]
  rw [← hgoesOn]
  exact reads_atTerminator

end

/-! ## Numbers -/

section

variable {text follow : List Char}

/-- A number behind which the value may end. -/
theorem reads_numberOrText {n : Number} (hn : Reads lexicon number text follow n)
    (h : Ends follow) : Reads lexicon numberOrText text follow
      (match n.integer with
        | some i => int i
        | none => float n.value) := by
  refine Reads.get_bind_any fun start => ?_
  refine Reads.bind_pure hn (Reads.bind_nil (reads_testAny _) ?_)
  rw [List.nil_append, longest_dots_of_clear h.clear]
  refine Reads.bind_nil h.reads ?_
  cases n.integer with
  | none => exact reads_pure _
  | some i => exact reads_pure _

/-- A number behind which dots stand is the lower bound of a range. -/
theorem reads_numberOrText_range {r : IntRange} {i : Int64} (hr : r.min = some i)
    (h : Ends follow) : Reads lexicon numberOrText (toString r).toList follow (range r) := by
  intro start hl ht
  have hrange : Reads lexicon Scan.range (toString r).toList follow r :=
    reads_range (.inl (hr ▸ rfl)) h.clear
  have htext : start.rest = (toString i).toList ++ ('.' :: '.' :: (boundText r.max ++ follow)) := by
    rw [ht, toList_range, hr]
    simp [boundText]
  have hnumber := reads_number_of_int (Numeral.stopsAt_dots _ _) start hl htext
  have hrest := Scanner.rest_advance_of_append htext
  have hdots : testAny [".."] false (start.advance (toString i).toList.length) = _ :=
    reads_testAny [".."] _ hl hrest
  unfold numberOrText
  change (number >>= _) start = _
  rw [bind_of_ok hnumber, bind_of_ok hdots, longest_singleton (by decide), if_pos]
  · exact map_of_ok (hrange start hl ht)
  · simp [List.isPrefixOf]

/-- A token that begins with a number. -/
theorem reads_token_number {v : ArgValue} (hdots : longest [".."] (text ++ follow) = none)
    (hnumber : (Numeral.read (text ++ follow)).isSome)
    (hv : Reads lexicon numberOrText text follow v) : Reads lexicon token text follow v := by
  refine Reads.bind_nil (reads_testAny _) ?_
  rw [hdots]
  refine Reads.bind_nil reads_atNumber ?_
  rw [if_pos hnumber]
  exact hv

theorem isSome_read_int (i : Int64) (h : (Numeral.ofInt i.toInt).StopsAt follow) :
    (Numeral.read ((toString i).toList ++ follow)).isSome := by
  have hread := Numeral.read_chars_append (Numeral.valid_ofInt i.toInt) h
  rw [Numeral.chars_ofInt] at hread
  exact Option.isSome_of_eq_some hread

theorem reads_token_int (i : Int64) (h : Ends follow) :
    Reads lexicon token (toString i).toList follow (int i) := by
  have hstops := h.clear.stopsAt (Numeral.ofInt i.toInt)
  exact reads_token_number (longest_dots_int i follow) (isSome_read_int i hstops)
    (reads_numberOrText (reads_number_of_int hstops) h)

theorem reads_token_range {r : IntRange} (hr : r.min.isSome ∨ r.max.isSome) (h : Ends follow) :
    Reads lexicon token (toString r).toList follow (range r) := by
  cases hmin : r.min with
  | some i =>
    have htext : (toString r).toList ++ follow =
        (toString i).toList ++ ('.' :: '.' :: (boundText r.max ++ follow)) := by
      rw [toList_range, hmin]
      simp [boundText]
    refine reads_token_number ?_ ?_ (reads_numberOrText_range hmin h)
    · rw [htext]
      exact longest_dots_int i _
    · rw [htext]
      exact isSome_read_int i (Numeral.stopsAt_dots _ _)
  | none =>
    have hrange : Reads lexicon Scan.range (toString r).toList follow r := reads_range hr h.clear
    have hdots : longest [".."] ((toString r).toList ++ follow) = some ".." := by
      rw [toList_range, hmin, longest_singleton (by decide)]
      exact if_pos (by simp [boundText, List.isPrefixOf])
    refine Reads.bind_nil (reads_testAny _) ?_
    rw [hdots]
    exact hrange.bind_pure (h.terminated _)

end

/-! ## Words -/

section

variable {word : String} {s follow : List Char}

theorem longest_words (hw : word = "true" ∨ word = "false") (rest : List Char) :
    longest ["true", "false"] (word.toList ++ rest) = some word := by
  rcases hw with rfl | rfl <;> simp [longest, List.isPrefixOf]

theorem longest_words_none (ht : ¬ "true".toList <+: s) (hf : ¬ "false".toList <+: s) :
    longest ["true", "false"] s = none := by
  simp only [longest, List.foldl_cons, List.foldl_nil]
  simp_all [← List.isPrefixOf_iff_prefix]

theorem reads_bool (hw : word = "true" ∨ word = "false") :
    Reads lexicon Scan.bool word.toList follow (word == "true") := by
  refine Reads.get_bind fun t hl ht => ?_
  have hwords : t.lexicon.trueWords ++ t.lexicon.falseWords = ["true", "false"] := by
    rw [hl]
    rfl
  have hconsume : consumeAny ["true", "false"] false t =
      .ok (some word) (t.advance word.toList.length) := by
    have hlongest := longest_words hw follow
    rw [← ht] at hlongest
    have hsettled : t.settled false = t := rfl
    simp only [consumeAny, hsettled, hlongest, String.length_toList]
  rw [hwords, bind_of_ok hconsume, hl]
  rcases hw with rfl | rfl <;> rfl

/-- A token that begins with one of the words, and not with a number. -/
theorem reads_token_word {v : ArgValue} {text : List Char} (h : Numeral.Clear (text ++ follow))
    (hw : longest ["true", "false"] (text ++ follow) = some word)
    (hv : Reads lexicon boolOrText text follow v) : Reads lexicon token text follow v := by
  refine Reads.bind_nil (reads_testAny _) ?_
  rw [longest_dots_of_clear h]
  refine Reads.bind_nil reads_atNumber ?_
  rw [h.read]
  refine Reads.bind_nil (reads_testAny _) ?_
  rw [hw]
  exact hv

theorem reads_token_bool (b : Bool) (h : Ends follow) :
    Reads lexicon token (toString b).toList follow (bool b) := by
  obtain ⟨word, hw, htext, hb⟩ : ∃ word : String, (word = "true" ∨ word = "false") ∧
      toString b = word ∧ (word == "true") = b := by
    cases b
    · exact ⟨"false", .inr rfl, rfl, rfl⟩
    · exact ⟨"true", .inl rfl, rfl, rfl⟩
  have hclear : Numeral.Clear (word.toList ++ follow) := by
    rcases hw with rfl | rfl <;> (intro c hc; cases hc; decide)
  rw [htext]
  refine reads_token_word hclear (longest_words hw follow) ?_
  refine Reads.get_bind_any fun start => ?_
  refine (reads_bool hw).bind_pure (Reads.bind_nil h.reads ?_)
  rw [hb]
  exact reads_pure _

/-- A token that begins with one of the words and goes on behind it is read again as
text. -/
theorem reads_boolOrText {rest : List Char} (hs : Unbroken (word.toList ++ rest))
    (hrest : rest ≠ []) (hw : word = "true" ∨ word = "false") (h : Ends follow) :
    Reads lexicon boolOrText (word.toList ++ rest) follow
      (text (String.ofList (word.toList ++ rest))) := by
  intro start hl ht
  have hsplit := ht
  rw [List.append_assoc] at hsplit
  have hbool := reads_bool hw start hl hsplit
  have hend := hs.goesOn hrest follow (start.advance word.toList.length) hl
    (Scanner.rest_advance_of_append hsplit)
  unfold boolOrText
  change (Scan.bool >>= _) start = _
  rw [bind_of_ok hbool, bind_of_ok hend]
  exact hs.reads h start hl ht

/-- A token that begins with no number is read as text. -/
theorem reads_token_text (hs : Unbroken s) (hdots : longest [".."] (s ++ follow) = none)
    (hnumber : Numeral.read (s ++ follow) = none)
    (hword : s ≠ "true".toList ∧ s ≠ "false".toList) (h : Ends follow) :
    Reads lexicon token s follow (text (String.ofList s)) := by
  refine Reads.bind_nil (reads_testAny _) ?_
  rw [hdots]
  refine Reads.bind_nil reads_atNumber ?_
  rw [hnumber]
  by_cases hbegins : ∃ word rest, (word = "true" ∨ word = "false") ∧ s = word.toList ++ rest
  · obtain ⟨word, rest, hw, rfl⟩ := hbegins
    have hlongest := longest_words hw (rest ++ follow)
    rw [← List.append_assoc] at hlongest
    have hrest : rest ≠ [] := by
      rintro rfl
      rw [List.append_nil] at hword
      rcases hw with rfl | rfl
      · exact hword.1 rfl
      · exact hword.2 rfl
    refine Reads.bind_nil (reads_testAny _) ?_
    rw [hlongest]
    exact reads_boolOrText hs hrest hw h
  · have hnone : longest ["true", "false"] (s ++ follow) = none := by
      refine longest_words_none ?_ ?_ <;> intro hp <;> refine hbegins ?_
      · obtain ⟨rest, hr⟩ := h.prefix_of_append (List.all_iff_forall_prop.1 (by decide)) hp
        exact ⟨"true", rest, .inl rfl, hr.symm⟩
      · obtain ⟨rest, hr⟩ := h.prefix_of_append (List.all_iff_forall_prop.1 (by decide)) hp
        exact ⟨"false", rest, .inr rfl, hr.symm⟩
    refine Reads.bind_nil (reads_testAny _) ?_
    rw [hnone]
    exact hs.reads h

/-- A bare string is read as text. -/
theorem reads_token_bare (hs : Bare s) (h : Ends follow) :
    Reads lexicon token s follow (text (String.ofList s)) := by
  have hclear : Numeral.Clear (s ++ follow) := by
    cases s with
    | nil => exact absurd rfl hs.ne_nil
    | cons c s => exact hs.head
  exact reads_token_text hs.unbroken (longest_dots_of_clear hclear) hclear.read hs.ne_word h

end

end CommandChain.ArgValue
