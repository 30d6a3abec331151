import CommandChain.Proofs.Number.Decimal
import CommandChain.Proofs.Value.Leaf
import CommandChain.Proofs.Value.Scanned

/-!
# Numbers with a fractional part, read back

`ReadsBack` says that a value is read back from its text alone. A number with a
fractional part, or one counted from `~`, is then read back wherever a value may
end behind it: no character of its text ends a value, so it was read to the end
of the text, and a number does not go on past the end of a value.
-/

namespace CommandChain.ArgValue

open Scan

/-- The value is read back from its text, as a value equal to it. -/
def ReadsBack (v : ArgValue) : Prop :=
  ∃ v' t, ArgValue.scan (.ofText lexicon (toString v)) = .ok v' t ∧ v' == v

instance (v : ArgValue) : Decidable (ReadsBack v) :=
  match h : ArgValue.scan (.ofText lexicon (toString v)) with
  | .ok v' t =>
    if heq : v' == v then .isTrue ⟨v', t, h, heq⟩
    else .isFalse fun ⟨_, _, h', heq'⟩ => by rw [h] at h'; cases h'; exact heq heq'
  | .error _ _ => .isFalse fun ⟨_, _, h', _⟩ => by rw [h] at h'; cases h'

/-- A number with a fractional part, or one counted from `~`. -/
def isFractional : ArgValue → Bool
  | float _ | relative _ => true
  | _ => false

/-! ## Texts of floats -/

theorem floatText_chars (x : Float) : ∀ c ∈ (floatText x).toList, Plain c := by
  intro c hc
  have hfloat : Number.isFloatChar c := by
    unfold floatText at hc
    rw [String.toList_ofList] at hc
    split at hc
    · exact Number.fixed_chars _ _ c hc
    · exact Number.plain_chars _ c hc
  exact plain_of (by decide) hfloat

/-- A text of plain characters that may end a value is empty. -/
theorem Ends.eq_nil {text : List Char} (h : Ends text)
    (hchars : ∀ c ∈ text, Plain c) : text = [] := by
  cases text with
  | nil => rfl
  | cons c text =>
    have hc := hchars c List.mem_cons_self
    rcases h c rfl with hb | hs
    · exact absurd hb hc.1
    · exact absurd (stops_subset hs) hc.2

theorem atTerminator_ok {t t' : Scanner} (hl : t.lexicon = lexicon)
    (h : atTerminator t = .ok true t') : Ends t.rest := by
  rw [reads_atTerminator t hl rfl] at h
  have hends := (EStateM.Result.ok.inj h).1
  intro c hc
  rw [Option.mem_def.1 hc] at hends
  simpa using hends

/-! ## Dispatch on the first character -/

theorem scan_eq_scanFrom {t : Scanner} {c : Char} {w : List Char} (ht : t.rest = c :: w)
    (hc : c ∉ t.lexicon.whitespace) :
    ArgValue.scan t = scanFrom (beyond t fun u _ => ArgValue.scan u) c t := by
  have hpeek : Reads t.lexicon (peek true) [] (c :: w) (some c) :=
    reads_peek (t.lexicon.margin_nil true) fun _ c' hc' => by cases hc'; exact hc
  rw [ArgValue.scan, scanWith_eq, bind_of_ok (hpeek t rfl ht), List.length_nil,
    Scanner.advance_zero]

/-! ## Floats -/

/-- A float that is read is what the reader of numbers gives. -/
theorem number_of_scan {t t' : Scanner} {x : Float} (hl : t.lexicon = lexicon)
    (hs : lexicon.Solid t.rest) (h : ArgValue.scan t = .ok (float x) t') :
    ∃ m t₁, number t = .ok m t₁ ∧ m.integer = none ∧ m.value = x ∧ Ends t₁.rest := by
  obtain ⟨t₁, hpeek, hread⟩ := scan_ok h
  have hstay : Reads lexicon (peek true) [] t.rest t.rest.head? :=
    reads_peek (lexicon.margin_nil true) fun _ => hs
  rw [hstay t hl rfl, List.length_nil, Scanner.advance_zero] at hpeek
  obtain ⟨-, rfl⟩ := EStateM.Result.ok.inj hpeek
  obtain _ | _ | _ | ⟨htoken⟩ := hread
  obtain _ | _ | ⟨hnumber, hinteger, hends⟩ | _ | _ := htoken
  refine ⟨_, _, hnumber, hinteger, rfl, atTerminator_ok ?_ hends⟩
  obtain ⟨n, rest, _, _, rfl, _⟩ := number_ok hnumber
  exact hl

/-- A number that is read to where a value may end is the whole of a plain text. -/
theorem number_whole {t t₁ : Scanner} {m : Number} (hchars : ∀ c ∈ t.rest, Plain c)
    (hnumber : number t = .ok m t₁) (hends : Ends t₁.rest) :
    ∃ n : Numeral, n.Valid ∧ t.rest = n.chars ∧ numberOf n = some m := by
  obtain ⟨n, rest, hvalid, hrest, rfl, hvalue⟩ := number_ok hnumber
  rw [Scanner.rest_advance_of_append hrest] at hends
  rw [hrest] at hchars
  have hnil := hends.eq_nil fun c hc => hchars c (List.mem_append_right _ hc)
  exact ⟨n, hvalid, by rw [hrest, hnil, List.append_nil], hvalue⟩

/-- A number that may end a value is read as a token. -/
theorem reads_token_numeral {n : Numeral} {m : Number} (hvalid : n.Valid)
    (hvalue : numberOf n = some m) {follow : List Char} (h : Ends follow) :
    Reads lexicon token n.chars follow
      (m.integer.elim (float m.value) int) := by
  have hstops := h.clear.stopsAt n
  have hfound : (Numeral.read (n.chars ++ follow)).isSome := by
    rw [Numeral.read_chars_append hvalid hstops]
    rfl
  have hdots : longest [".."] (n.chars ++ follow) = none := by
    rw [longest_singleton (by decide), if_neg]
    exact fun hp => hvalid.not_dots follow (List.isPrefixOf_iff_prefix.1 hp)
  have hnumber := reads_numberOrText (reads_number hvalid hvalue hstops) h
  cases hinteger : m.integer with
  | none =>
    rw [hinteger] at hnumber
    exact reads_token_number hdots hfound hnumber
  | some i =>
    rw [hinteger] at hnumber
    exact reads_token_number hdots hfound hnumber

/-- A float that is read from a plain text alone is the whole of it. -/
theorem numeral_of_scan {t t' : Scanner} {x : Float} (hl : t.lexicon = lexicon)
    (hchars : ∀ c ∈ t.rest, Plain c) (h : ArgValue.scan t = .ok (float x) t') :
    ∃ n : Numeral, n.Valid ∧ t.rest = n.chars ∧ numberOf n = some ⟨x, none⟩ := by
  have hsolid : lexicon.Solid t.rest := fun c hc => (hchars c (List.mem_of_head? hc)).1
  obtain ⟨⟨_, _⟩, t₁, hnumber, rfl, rfl, hends⟩ := number_of_scan hl hsolid h
  exact number_whole hchars hnumber hends

theorem reads_token_float {x : Float} (hx : ReadsBack (float x)) :
    ∃ x', float x' == float x ∧
      (∃ c w, (floatText x).toList = c :: w ∧ startsNumber c) ∧
      ∀ follow, Ends follow → Reads lexicon token (floatText x).toList follow (float x') := by
  obtain ⟨v, t', hscan, heq⟩ := hx
  obtain ⟨x', rfl⟩ : ∃ x', v = float x' := by
    cases v <;> first | exact ⟨_, rfl⟩ | cases heq
  obtain ⟨n, hvalid, htext, hvalue⟩ := numeral_of_scan rfl (floatText_chars x) hscan
  rw [show (floatText x).toList = n.chars from htext]
  exact ⟨x', heq, hvalid.head, fun follow h => reads_token_numeral hvalid hvalue h⟩

/-! ## Relative numbers -/

theorem toString_relative (x : Float) : (toString (relative x)).toList =
    '~' :: (if x == 0 then [] else (floatText x).toList) := by
  change (ArgValue.toString (relative x)).toList = _
  unfold ArgValue.toString
  split <;> simp

/-- What is read behind `~` in a plain text is the whole of it. -/
theorem numeral_of_relativeScan {t t' : Scanner} {x : Float} {digits : List Char}
    (hl : t.lexicon = lexicon) (ht : t.rest = '~' :: digits) (hdigits : ∀ c ∈ digits, Plain c)
    (hx : relativeScan t = .ok (relative x) t') : (digits = [] ∧ x = 0) ∨
      ∃ n : Numeral, ∃ m, n.Valid ∧ digits = n.chars ∧ numberOf n = some m ∧ x = m.value := by
  obtain ⟨mark, t₁, hmark, hx₁⟩ := bind_eq_ok_iff.1 hx
  have hnext : Reads lexicon (next false) ['~'] digits (some '~') := reads_next '~'
  rw [hnext t hl ht] at hmark
  obtain ⟨-, rfl⟩ := EStateM.Result.ok.inj hmark
  have hrest : (t.advance 1).rest = digits := by rw [Scanner.rest_advance, ht]; rfl
  obtain ⟨y, t₂, hy, hx₂⟩ := bind_eq_ok_iff.1 hx₁
  obtain ⟨hvalue, t₃, hends⟩ := terminated_ok hx₂
  cases hvalue
  rcases numberOrZero_ok hy with ⟨rfl, rfl⟩ | ⟨m, hm, rfl⟩
  · have hnil : Ends (t.advance 1).rest := atTerminator_ok (t := t.advance 1) hl hends
    rw [hrest] at hnil
    exact .inl ⟨hnil.eq_nil hdigits, rfl⟩
  · have hl' : t₂.lexicon = lexicon := by
      obtain ⟨_, _, _, _, rfl, _⟩ := number_ok hm
      exact hl
    obtain ⟨n, hvalid, htext, hvalue⟩ :=
      number_whole (by rwa [List.length_singleton, hrest]) hm (atTerminator_ok hl' hends)
    exact .inr ⟨n, m, hvalid, by rw [← hrest]; exact htext, hvalue, rfl⟩

section

variable {follow : List Char}

theorem reads_relativeScan {x : Float} {digits : List Char} (h : Ends follow)
    (hdigits : Reads lexicon numberOrZero digits follow x) :
    Reads lexicon relativeScan ('~' :: digits) follow (relative x) := by
  have hread : Reads lexicon relativeScan (['~'] ++ digits) follow (relative x) :=
    Reads.bind (reads_next '~') (hdigits.bind_pure (h.terminated _))
  exact hread

theorem reads_relativeScan_nil (h : Ends follow) :
    Reads lexicon relativeScan ['~'] follow (relative 0) :=
  reads_relativeScan h (reads_numberOrZero_nil h.clear)

theorem reads_relativeScan_numeral {n : Numeral} {m : Number} (hvalid : n.Valid)
    (hvalue : numberOf n = some m) (h : Ends follow) :
    Reads lexicon relativeScan ('~' :: n.chars) follow (relative m.value) :=
  reads_relativeScan h (reads_numberOrZero_numeral hvalid hvalue (h.clear.stopsAt n))

end

/-- The digits behind `~`. -/
def offsetDigits (x : Float) : List Char := if x == 0 then [] else (floatText x).toList

theorem offsetDigits_chars (x : Float) : ∀ c ∈ offsetDigits x, Plain c := by
  unfold offsetDigits
  split
  · nofun
  · exact floatText_chars x

/-- How a relative number came to be read back. -/
theorem ReadsBack.relative_cases {x : Float} (hx : ReadsBack (relative x)) :
    ∃ x', relative x' == relative x ∧ ((offsetDigits x = [] ∧ x' = 0) ∨
      ∃ n : Numeral, ∃ m, n.Valid ∧ offsetDigits x = n.chars ∧ numberOf n = some m ∧
        x' = m.value) := by
  obtain ⟨v, t', hscan, heq⟩ := hx
  obtain ⟨x', rfl⟩ : ∃ x', v = relative x' := by
    cases v <;> first | exact ⟨_, rfl⟩ | cases heq
  have hrest : (Scanner.ofText lexicon (toString (relative x))).rest = '~' :: offsetDigits x :=
    toString_relative x
  rw [scan_eq_scanFrom hrest (show '~' ∉ lexicon.whitespace by decide)] at hscan
  exact ⟨x', heq, numeral_of_relativeScan rfl hrest (offsetDigits_chars x) hscan⟩

/-- The number behind `~`, or zero. -/
theorem reads_relative {x : Float} (hx : ReadsBack (relative x)) :
    ∃ x', relative x' == relative x ∧ (∃ w, (toString (relative x)).toList = '~' :: w) ∧
      ∀ follow, Ends follow →
        Reads lexicon relativeScan (toString (relative x)).toList follow (relative x') := by
  obtain ⟨x', heq, hcases⟩ := hx.relative_cases
  have htext : (toString (relative x)).toList = '~' :: offsetDigits x := toString_relative x
  refine ⟨x', heq, ⟨_, htext⟩, fun follow h => ?_⟩
  rw [htext]
  rcases hcases with ⟨hnil, rfl⟩ | ⟨n, m, hvalid, hchars, hvalue, rfl⟩
  · rw [hnil]
    exact reads_relativeScan_nil h
  · rw [hchars]
    exact reads_relativeScan_numeral hvalid hvalue h

end CommandChain.ArgValue
