import CommandChain.Proofs.Scanner.Bytes
import CommandChain.Proofs.Scanner.Extension

/-!
# Readers that count bytes

A scanner that is split at its cursor is one that counts bytes (`Scanner.bytes`), with the
cursor at a character boundary. From there a reader of bytes gives the value or the error of
the reader it stands for, and leaves the cursor where that one does (`Agrees`).

A loop over characters is a `skipWhile` of the characters it passes, and ends as the first
character behind them says (`scanWhile_bytes`). The loop of a quoted string is `closeQuote`, which
counts the characters up to the closing quote (`closed_quoteLoop`).
-/

namespace CommandChain

/-! ## Cursors -/

namespace Scanner

/-- The scanner with its cursor in bytes. -/
def bytes (t : Scanner) : ByteScanner := ⟨t.lexicon, t.source, t.position⟩

variable {t : Scanner}

theorem split?_bytes (t : Scanner) : t.bytes.split? = some (t.consumed.reverse, t.rest) :=
  Text.splitAt?_eq_some_iff.2 ⟨rfl, Text.byteLength_reverse _⟩

theorem split?_of_rest {rest : List Char} (h : t.rest = rest) :
    t.bytes.split? = some (t.consumed.reverse, rest) := by
  rw [split?_bytes, h]

theorem position_advance (t : Scanner) (n : Nat) :
    (t.advance n).position = t.position + Text.byteLength (t.rest.take n) := by
  simp only [position, advance, Text.byteLength_append, Text.byteLength_reverse]
  exact Nat.add_comm _ _

theorem bytes_advance (t : Scanner) (n : Nat) :
    (t.advance n).bytes = t.bytes.moved (Text.byteLength (t.rest.take n)) := by
  simp only [bytes, ByteScanner.moved, source_advance, position_advance, lexicon_advance]

theorem bytes_advance_one {c : Char} {rest : List Char} (h : t.rest = c :: rest) :
    (t.advance 1).bytes = t.bytes.moved c.utf8Size := by
  rw [bytes_advance, h]
  rfl

theorem skipWhile_of_neg {p : Char → Bool} (h : ∀ c ∈ t.rest.head?, p c = false) :
    t.skipWhile p = t := by
  have hnil : t.rest.takeWhile p = [] := by
    cases hrest : t.rest with
    | nil => rfl
    | cons c rest => exact List.takeWhile_cons_of_neg (by simp [h c (by rw [hrest]; rfl)])
  rw [skipWhile, hnil]
  exact t.advance_zero

theorem skipWhile_of_pos {p : Char → Bool} {c : Char} {rest : List Char} (h : t.rest = c :: rest)
    (hc : p c) : t.skipWhile p = (t.advance 1).skipWhile p := by
  have hrest : (t.advance 1).rest = rest := by rw [rest_advance, h]; rfl
  rw [skipWhile, skipWhile, hrest, h, List.takeWhile_cons_of_pos hc, advance_advance,
    List.length_cons, Nat.add_comm]

theorem stops_skipWhile (t : Scanner) (p : Char → Bool) :
    ∀ c ∈ (t.skipWhile p).rest.head?, p c = false := by
  intro c hc
  have hstop := List.head?_dropWhile_not p t.rest
  rw [← rest_skipWhile, Option.mem_def.1 hc] at hstop
  simpa using hstop

/-- The text that the cursor has been moved over. -/
theorem since?_advance (t : Scanner) (n : Nat) :
    (t.advance n).bytes.since? t.position = some (t.rest.take n) := by
  have hstart : Text.splitAt? t.source t.position = some (t.consumed.reverse, t.rest) :=
    split?_bytes t
  have htext : Text.splitAt? t.rest (Text.byteLength (t.rest.take n)) =
      some (t.rest.take n, t.rest.drop n) :=
    Text.splitAt?_eq_some_iff.2 ⟨(List.take_append_drop n t.rest).symm, rfl⟩
  have hnot : ¬ t.position + Text.byteLength (t.rest.take n) < t.position := by omega
  simp only [ByteScanner.since?, bytes, source_advance, position_advance, if_neg hnot,
    Nat.add_sub_cancel_left, hstart, htext, Option.bind_eq_bind, Option.bind_some]
  rfl

end Scanner

/-! ## Readers -/

section

variable {α β : Type} {x : ByteScan α} {y : Scan α}

/-- The reader of bytes does what the other does, with the cursor in bytes; and takes no slice
but at character boundaries. -/
def Agrees (x : ByteScan α) (y : Scan α) : Prop :=
  ∀ t : Scanner, x t.bytes = mapError Halt.error (mapState Scanner.bytes (y t))

theorem Agrees.bind {f : α → ByteScan β} {g : α → Scan β} (h : Agrees x y)
    (hf : ∀ a, Agrees (f a) (g a)) : Agrees (x >>= f) (y >>= g) := by
  intro t
  have ht := h t
  cases hy : y t with
  | ok a t' =>
    rw [hy] at ht
    rw [bind_of_ok ht, bind_of_ok hy]
    exact hf a t'
  | error e t' =>
    rw [hy] at ht
    rw [bind_of_error ht, bind_of_error hy]
    rfl

theorem agrees_pure (a : α) : Agrees (pure a) (pure a) := fun _ => rfl

theorem Agrees.map (h : Agrees x y) (f : α → β) : Agrees (f <$> x) (f <$> y) := by
  intro t
  simp only [Functor.map, EStateM.map, h t]
  cases y t <;> rfl

theorem Agrees.ite {p : Prop} [Decidable p] {x' : ByteScan α} {y' : Scan α} (h : Agrees x y)
    (h' : Agrees x' y') : Agrees (if p then x else x') (if p then y else y') := by
  split <;> assumption

theorem Agrees.bool {b : Bool} {x' : ByteScan α} {y' : Scan α} (h : Agrees x y)
    (h' : Agrees x' y') : Agrees (if b then x else x') (if b then y else y') :=
  h.ite h'

theorem before_bytes (t : Scanner) :
    ByteScan.before t.bytes = .ok t.consumed.reverse t.bytes := by
  simp only [ByteScan.before, ByteScan.slice, Scanner.split?_bytes]
  rfl

theorem rest_bytes (t : Scanner) : ByteScan.rest t.bytes = .ok t.rest t.bytes := by
  simp only [ByteScan.rest, ByteScan.slice, Scanner.split?_bytes]
  rfl

theorem error_bytes (message : String) (t : Scanner) :
    ByteScan.error message t.bytes = .ok (t.error message) t.bytes := by
  have hwindow : t.consumed.reverse.drop (t.consumed.reverse.length - Scanner.window) =
      (t.consumed.take Scanner.window).reverse := by
    rw [List.length_reverse, ← List.reverse_take]
  unfold ByteScan.error
  rw [bind_of_ok (before_bytes t), bind_of_ok (rest_bytes t)]
  simp only [hwindow]
  rfl

theorem fail_bytes (message : String) (t : Scanner) :
    (ByteScan.fail message : ByteScan α) t.bytes = .error (.error (t.error message)) t.bytes := by
  unfold ByteScan.fail
  rw [bind_of_ok (error_bytes message t)]
  rfl

theorem agrees_fail (message : String) :
    Agrees (ByteScan.fail message : ByteScan α) (Scan.fail message) :=
  fail_bytes message

/-! ## Characters -/

/-- The characters that a loop passes. -/
def passed (body : Char → Except String Bool) (c : Char) : Bool :=
  match body c with
  | .ok goesOn => goesOn
  | .error _ => false

/-- How a loop ends at the first character that it does not pass. -/
def stopped (body : Char → Except String Bool) (t : Scanner) :
    EStateM.Result Halt ByteScanner Unit :=
  match t.rest.head?.map body with
  | some (.error message) => .error (.error (t.error message)) t.bytes
  | _ => .ok () t.bytes

theorem scanWhile_bytes (body : Char → Except String Bool) (t : Scanner) :
    ByteScan.scanWhile body t.bytes = stopped body (t.skipWhile (passed body)) := by
  unfold ByteScan.scanWhile
  generalize hrest : t.rest = rest
  induction rest generalizing t with
  | nil =>
    have hskip : t.skipWhile (passed body) = t := Scanner.skipWhile_of_neg (by simp [hrest])
    rw [ByteScan.scanLoop, t.split?_of_rest hrest, hskip, stopped, hrest]
    rfl
  | cons c rest ih =>
    rw [ByteScan.scanLoop, t.split?_of_rest hrest]
    cases hc : body c with
    | error message =>
      have hskip : t.skipWhile (passed body) = t :=
        Scanner.skipWhile_of_neg (by simp [hrest, passed, hc])
      simp only [hskip, stopped, hrest, hc, fail_bytes, List.head?_cons, Option.map_some]
    | ok goesOn =>
      cases goesOn with
      | true =>
        have hskip := Scanner.skipWhile_of_pos hrest (p := passed body) (by simp [passed, hc])
        simp only [hc, hskip]
        rw [← Scanner.bytes_advance_one hrest]
        exact ih (t.advance 1) (by rw [Scanner.rest_advance, hrest]; rfl)
      | false =>
        have hskip : t.skipWhile (passed body) = t :=
          Scanner.skipWhile_of_neg (by simp [hrest, passed, hc])
        simp only [hskip, stopped, hrest, hc, List.head?_cons, Option.map_some]

theorem stopped_of_ok {body : Char → Except String Bool} {t : Scanner}
    (h : ∀ c ∈ t.rest.head?, body c = .ok false) : stopped body t = .ok () t.bytes := by
  unfold stopped
  cases hrest : t.rest.head? with
  | none => rfl
  | some c =>
    rw [Option.map_some, h c hrest]

theorem stopped_of_error {body : Char → Except String Bool} {t : Scanner} {c : Char}
    {message : String} (hc : t.rest.head? = some c) (h : body c = .error message) :
    stopped body t = .error (.error (t.error message)) t.bytes := by
  rw [stopped, hc, Option.map_some, h]

theorem scanWhile_ok_bytes (p : Char → Bool) (t : Scanner) :
    ByteScan.scanWhile (fun c => .ok (p c)) t.bytes = .ok () (t.skipWhile p).bytes := by
  have hpassed : passed (fun c => .ok (p c)) = p := rfl
  rw [scanWhile_bytes, hpassed]
  refine stopped_of_ok fun c hc => ?_
  rw [t.stops_skipWhile p c hc]

theorem lexicon_bytes (t : Scanner) : ByteScan.lexicon t.bytes = .ok t.lexicon t.bytes := rfl

theorem position_bytes (t : Scanner) : ByteScan.position t.bytes = .ok t.position t.bytes := rfl

theorem skipBlanks_bytes (t : Scanner) :
    ByteScan.skipBlanks t.bytes = .ok () t.skipBlanks.bytes := by
  unfold ByteScan.skipBlanks
  rw [bind_of_ok (lexicon_bytes t)]
  exact scanWhile_ok_bytes t.isBlank t

theorem agrees_skipBlanks : Agrees ByteScan.skipBlanks Scan.skipBlanks := skipBlanks_bytes

theorem settle_bytes (skip : Bool) (t : Scanner) :
    ByteScan.settle skip t.bytes = .ok () (t.settled skip).bytes := by
  cases skip with
  | true => exact skipBlanks_bytes t
  | false => rfl

theorem peek_bytes (skip : Bool) (t : Scanner) :
    ByteScan.peek skip t.bytes = .ok (t.settled skip).rest.head? (t.settled skip).bytes := by
  unfold ByteScan.peek
  rw [bind_of_ok (settle_bytes skip t), bind_of_ok (rest_bytes _)]
  rfl

theorem agrees_peek (skip : Bool) : Agrees (ByteScan.peek skip) (Scan.peek skip) := peek_bytes skip

theorem agrees_atEnd (skip : Bool) : Agrees (ByteScan.atEnd skip) (Scan.atEnd skip) :=
  (agrees_peek skip).bind fun _ => agrees_pure _

theorem move_bytes {t : Scanner} {text : List Char} (h : text <+: t.rest) :
    ByteScan.move (Text.byteLength text) t.bytes = .ok () (t.advance text.length).bytes := by
  rw [Scanner.bytes_advance, ← List.prefix_iff_eq_take.1 h]
  rfl

theorem agrees_next (skip : Bool) : Agrees (ByteScan.next skip) (Scan.next skip) := by
  intro t
  unfold ByteScan.next Scan.next
  rw [bind_of_ok (peek_bytes skip t)]
  cases hrest : (t.settled skip).rest with
  | nil =>
    have hstay : (t.settled skip).advance 1 = t.settled skip := by
      rw [Scanner.advance, hrest]
      exact congrArg (Scanner.mk _ _) hrest.symm
    simp only [hrest, hstay]
    rfl
  | cons c rest =>
    have hprefix : [c] <+: (t.settled skip).rest := ⟨rest, hrest.symm⟩
    have hmove := move_bytes hprefix
    simp only [hrest, List.head?_cons]
    exact bind_of_ok hmove

/-! ## Words -/

/-- Among words that a text begins with, more bytes are more characters. -/
theorem longest_eq (words : List String) (text : List Char) :
    ByteScan.longest words text = Scan.longest words text := by
  unfold ByteScan.longest Scan.longest
  have hbest : ∀ w ∈ (none : Option String), w.toList <+: text := nofun
  revert hbest
  generalize (none : Option String) = best
  intro hbest
  induction words generalizing best with
  | nil => rfl
  | cons w words ih =>
    rw [List.foldl_cons, List.foldl_cons]
    by_cases hw : (w.isEmpty || !w.toList.isPrefixOf text) = true
    · rw [if_pos hw, if_pos hw, ih best hbest]
    · rw [if_neg hw, if_neg hw]
      simp only [Bool.or_eq_true, Bool.not_eq_true', not_or, Bool.not_eq_false] at hw
      have hprefix : w.toList <+: text := List.isPrefixOf_iff_prefix.1 hw.2
      have hsome : ∀ w' ∈ some w, w'.toList <+: text := by
        rintro w' ⟨⟩
        exact hprefix
      cases best with
      | none => exact ih (some w) hsome
      | some b =>
        have hle : Text.byteLength b.toList ≤ Text.byteLength w.toList ↔ b.length ≤ w.length := by
          rw [Text.byteLength_le_iff (hbest b rfl) hprefix, String.length_toList,
            String.length_toList]
        simp only [hle]
        by_cases hlength : b.length ≤ w.length
        · simp only [if_pos hlength]
          exact ih (some w) hsome
        · simp only [if_neg hlength]
          exact ih (some b) hbest

theorem testAny_bytes (words : List String) (skip : Bool) (t : Scanner) :
    ByteScan.testAny words skip t.bytes =
      .ok (Scan.longest words (t.settled skip).rest) (t.settled skip).bytes := by
  unfold ByteScan.testAny
  rw [bind_of_ok (settle_bytes skip t), bind_of_ok (rest_bytes _), longest_eq]
  rfl

theorem agrees_testAny (words : List String) (skip : Bool) :
    Agrees (ByteScan.testAny words skip) (Scan.testAny words skip) :=
  testAny_bytes words skip

theorem agrees_consumeAny (words : List String) (skip : Bool) :
    Agrees (ByteScan.consumeAny words skip) (Scan.consumeAny words skip) := by
  intro t
  unfold ByteScan.consumeAny Scan.consumeAny
  rw [bind_of_ok (testAny_bytes words skip t)]
  cases hw : Scan.longest words (t.settled skip).rest with
  | none => simp only [hw]; rfl
  | some w =>
    have hmove := move_bytes (Scan.prefix_of_longest w hw)
    rw [String.length_toList] at hmove
    simp only [hw]
    exact bind_of_ok hmove

theorem agrees_accept (token : String) (skip : Bool) :
    Agrees (ByteScan.accept token skip) (Scan.accept token skip) :=
  (agrees_consumeAny [token] skip).bind fun _ => agrees_pure _

theorem agrees_expect (token : String) (skip : Bool) :
    Agrees (ByteScan.expect token skip) (Scan.expect token skip) := by
  refine (agrees_accept token skip).bind fun found => ?_
  cases found with
  | true => exact agrees_pure ()
  | false => exact agrees_fail _

theorem agrees_expectEnd : Agrees ByteScan.expectEnd Scan.expectEnd := by
  refine (agrees_atEnd true).bind fun found => ?_
  cases found with
  | true => exact agrees_pure ()
  | false => exact agrees_fail _

theorem agrees_bool : Agrees ByteScan.bool Scan.bool := by
  intro t
  have hconsume := agrees_consumeAny (t.lexicon.trueWords ++ t.lexicon.falseWords) false
  refine (hconsume.bind fun word => ?_) t
  cases word with
  | some word => exact agrees_pure _
  | none => exact agrees_fail _

/-! ## Strings -/

theorem since?_bytes (t : Scanner) (n : Nat) :
    ByteScan.slice (·.since? t.position) (t.advance n).bytes =
      .ok (t.rest.take n) (t.advance n).bytes := by
  rw [ByteScan.slice, t.since?_advance n]

theorem agrees_takeWhile (p : Char → Bool) :
    Agrees (ByteScan.takeWhile p) (Scan.takeWhile p) := by
  intro t
  have htake : t.rest.take (t.rest.takeWhile p).length = t.rest.takeWhile p :=
    (List.prefix_iff_eq_take.1 (List.takeWhile_prefix p)).symm
  unfold ByteScan.takeWhile
  rw [bind_of_ok (position_bytes t), bind_of_ok (scanWhile_ok_bytes p t)]
  rw [Scanner.skipWhile, bind_of_ok (since?_bytes t _), htake]
  rfl

/-- What the loop of a quoted string comes to where `closeQuote` gives an answer. -/
def closed (text : List Char) (t : Scanner) : Option (List Char × Nat) →
    EStateM.Result Halt ByteScanner (Option (List Char)) → Prop
  | some (inner, n), result => result = .ok (some (text ++ inner)) (t.advance n).bytes
  | none, result => ∃ n, result = .ok none (t.advance n).bytes

/-- The loop goes on behind `k` characters, of which it has added `w` to the text. -/
theorem closed_of_advance {text w : List Char} {t : Scanner} {k : Nat}
    {answer : Option (List Char × Nat)}
    {result : EStateM.Result Halt ByteScanner (Option (List Char))}
    (h : closed (text ++ w) (t.advance k) answer result) :
    closed text t (answer.map fun (inner, n) => (w ++ inner, n + k)) result := by
  cases answer with
  | none =>
    obtain ⟨n, h⟩ := h
    exact ⟨k + n, by rw [h, Scanner.advance_advance]⟩
  | some answer =>
    rw [closed, List.append_assoc, Scanner.advance_advance, Nat.add_comm] at h
    exact h

theorem closed_quoteLoop (quote : Char) (text : List Char) (t : Scanner) :
    closed text t (Scan.closeQuote quote t.rest) (ByteScan.quoteLoop quote text t.bytes) := by
  induction hlength : t.rest.length using Nat.strong_induction_on generalizing t text with
  | _ length ih =>
    have hstep (k : Nat) (hk : 0 < k) (hle : k ≤ t.rest.length) (w : List Char) :=
      closed_of_advance
        (ih (t.advance k).rest.length (by simp; omega) (text ++ w) (t.advance k) rfl)
    rw [ByteScan.quoteLoop]
    cases hrest : t.rest with
    | nil =>
      rw [t.split?_of_rest hrest]
      exact ⟨0, by rw [Scanner.advance_zero]⟩
    | cons c rest =>
      rw [t.split?_of_rest hrest]
      dsimp only
      rw [← Scanner.bytes_advance_one hrest]
      have hone : (t.advance 1).rest = rest := by rw [Scanner.rest_advance, hrest]; rfl
      by_cases hc : c = '\\'
      · subst hc
        rw [if_pos rfl]
        cases rest with
        | nil =>
          rw [(t.advance 1).split?_of_rest hone]
          exact ⟨1, rfl⟩
        | cons d rest =>
          have htwo := hstep 2 (by omega) (by rw [hrest]; simp) [d]
          have hbehind : (t.advance 2).rest = rest := by rw [Scanner.rest_advance, hrest]; rfl
          rw [(t.advance 1).split?_of_rest hone]
          dsimp only
          rw [← Scanner.bytes_advance_one hone, Scanner.advance_advance, Scan.closeQuote, ← hbehind]
          exact htwo
      · rw [if_neg hc, Scan.closeQuote_cons hc]
        split
        · rw [closed, List.append_nil]
        · have hnext := hstep 1 (by omega) (by rw [hrest]; simp) [c]
          rw [hone] at hnext
          exact hnext

/-- The cursor is put back to where it was. -/
theorem rewind_bytes (t : Scanner) (n : Nat) :
    ByteScan.rewind t.position (t.advance n).bytes = .ok () t.bytes := by
  have hstate : { (t.advance n).bytes with position := t.position } = t.bytes := by
    simp only [Scanner.bytes, Scanner.source_advance, Scanner.lexicon_advance]
  exact congrArg (EStateM.Result.ok ()) hstate

theorem agrees_quoted : Agrees ByteScan.quoted Scan.quoted := by
  intro t
  have hpeek : ByteScan.peek false t.bytes = .ok t.rest.head? t.bytes := peek_bytes false t
  unfold ByteScan.quoted Scan.quoted
  rw [bind_of_ok hpeek]
  cases hrest : t.rest with
  | nil => exact fail_bytes _ t
  | cons quote body =>
    simp only [List.head?_cons]
    rw [bind_of_ok (lexicon_bytes t)]
    split
    · have hnext := agrees_next false t
      have hone : (t.advance 1).rest = body := by rw [Scanner.rest_advance, hrest]; rfl
      have hclosed := closed_quoteLoop quote [] (t.advance 1)
      rw [hone] at hclosed
      rw [bind_of_ok (position_bytes t), bind_of_ok hnext]
      cases hclose : Scan.closeQuote quote body with
      | some answer =>
        obtain ⟨text, n⟩ := answer
        rw [hclose, closed, Scanner.advance_advance, List.nil_append, Nat.add_comm] at hclosed
        exact bind_of_ok hclosed
      | none =>
        rw [hclose] at hclosed
        obtain ⟨n, hclosed⟩ := hclosed
        rw [Scanner.advance_advance] at hclosed
        refine (bind_of_ok hclosed).trans ?_
        dsimp only
        rw [bind_of_ok (rewind_bytes t _)]
        exact fail_bytes _ t
    · exact fail_bytes _ t

/-- The end of an unquoted string, where it is taken from the text. -/
theorem taken_bytes (t : Scanner) (text : List Char) (h : text <+: t.rest) :
    (do if (← ByteScan.position) = t.position then ByteScan.fail "expected string"
        else return String.ofList (← ByteScan.slice (·.since? t.position)) : ByteScan String)
        (t.advance text.length).bytes =
      mapError Halt.error (mapState Scanner.bytes
        (if text.isEmpty then Scan.fail "expected string" (t.advance text.length)
          else .ok (String.ofList text) (t.advance text.length))) := by
  have htake : t.rest.take text.length = text := (List.prefix_iff_eq_take.1 h).symm
  have hposition : (t.advance text.length).position = t.position ↔ text.isEmpty := by
    rw [Scanner.position_advance, htake]
    cases text with
    | nil => simp [Text.byteLength]
    | cons c text => simp [Text.byteLength_cons_ne_zero]
  rw [bind_of_ok (position_bytes _)]
  by_cases hempty : text.isEmpty
  · rw [if_pos (hposition.2 hempty), if_pos hempty]
    exact fail_bytes _ _
  · rw [if_neg (mt hposition.1 hempty), if_neg hempty, bind_of_ok (since?_bytes t _), htake]
    rfl

theorem agrees_unquoted (stops : List Char) :
    Agrees (ByteScan.unquoted stops) (Scan.unquoted stops) := by
  intro t
  let ends (c : Char) := t.isBlank c || stops.contains c
  let body (c : Char) : Except String Bool :=
    if ends c then .ok false
    else if t.lexicon.symbols.contains c then .error ("unexpected `" ++ c.toString ++ "`")
    else .ok true
  let plain (c : Char) := !ends c && !t.lexicon.symbols.contains c
  have hpassed : passed body = plain := by
    funext c
    simp only [passed, body, plain]
    cases ends c <;> cases t.lexicon.symbols.contains c <;> rfl
  have hloop := scanWhile_bytes body t
  rw [hpassed] at hloop
  have htaken := taken_bytes t (t.rest.takeWhile plain) (List.takeWhile_prefix plain)
  have hstops := t.stops_skipWhile plain
  unfold ByteScan.unquoted Scan.unquoted
  rw [bind_of_ok (position_bytes t), bind_of_ok (lexicon_bytes t)]
  dsimp only
  split
  · next c hfilter =>
    have hc : (t.skipWhile plain).rest.head? = some c := (Option.filter_eq_some_iff.1 hfilter).1
    have hnot : (!ends c) = true := (Option.filter_eq_some_iff.1 hfilter).2
    have hends : ends c = false := by simpa using hnot
    have hsymbol : t.lexicon.symbols.contains c = true := by
      simpa [plain, hends] using hstops c hc
    have hbody : body c = .error ("unexpected `" ++ c.toString ++ "`") := by
      simp only [body, hends, hsymbol]
      rfl
    rw [stopped_of_error hc hbody] at hloop
    exact bind_of_error hloop
  · next hfilter =>
    have hends : ∀ c ∈ (t.skipWhile plain).rest.head?, body c = .ok false := by
      intro c hc
      have hnot : ¬ (!ends c) = true := Option.filter_eq_none_iff.1 hfilter c hc
      have hends : ends c = true := by simpa using hnot
      exact if_pos hends
    rw [stopped_of_ok hends] at hloop
    exact (bind_of_ok hloop).trans htaken

theorem agrees_string (stops : List Char) :
    Agrees (ByteScan.string stops) (Scan.string stops) := by
  refine (agrees_peek true).bind fun c => ?_
  cases c with
  | none => exact agrees_unquoted stops
  | some c =>
    intro t
    exact (agrees_quoted.bool (agrees_unquoted stops)) t

end

end CommandChain
