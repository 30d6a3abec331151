import CommandChain.Proofs.Scanner.Digits

/-!
# Character boundaries

The readers of a scanner that is split at its cursor only move it on, and fail with the error
at the cursor (`Scan.Steady`). Each `ScannerOp` is such a reader, and has one by bytes that
agrees with it.

Calls may also save the cursor and put it back where it was saved (`ScannerCall`). A single
call keeps the saved offsets at character boundaries of the text (`Scanner.Of.read`), and from
there does by bytes what it does on the split scanner (`Scanner.Of.run`). So a scanner that
counts bytes never leaves the character boundaries of its text, whatever is asked of it
(`Scanner.stays_on_boundaries`).
-/

namespace CommandChain

/-! ## Where readers leave the cursor -/

namespace Scan

variable {α β : Type} {x : Scan α}

/-- The cursor only goes forward, in success and in failure, and an error is of where it is
left. -/
def Steady (x : Scan α) : Prop :=
  ∀ t, (∃ n, stateLeft (x t) = t.advance n) ∧
    ∀ e t', x t = .error e t' → ∃ message, e = t'.error message

theorem steady_of_ok (h : ∀ t, ∃ a n, x t = .ok a (t.advance n)) : Steady x := by
  intro t
  obtain ⟨a, n, ht⟩ := h t
  rw [ht]
  exact ⟨⟨n, rfl⟩, nofun⟩

theorem steady_pure (a : α) : Steady (pure a : Scan α) :=
  steady_of_ok fun t => ⟨a, 0, by rw [t.advance_zero]; rfl⟩

theorem steady_fail (message : String) : Steady (fail message : Scan α) := by
  intro t
  refine ⟨⟨0, t.advance_zero.symm⟩, ?_⟩
  rintro e t' ⟨⟩
  exact ⟨message, rfl⟩

theorem Steady.bind {f : α → Scan β} (hx : Steady x) (hf : ∀ a, Steady (f a)) :
    Steady (x >>= f) := by
  intro t
  obtain ⟨⟨n, hn⟩, herror⟩ := hx t
  cases h : x t with
  | error e t' =>
    rw [h] at hn
    rw [bind_of_error h]
    refine ⟨⟨n, hn⟩, ?_⟩
    rintro _ _ ⟨⟩
    exact herror e t' h
  | ok a t' =>
    rw [h] at hn
    obtain rfl : t' = t.advance n := hn
    obtain ⟨⟨m, hm⟩, herror'⟩ := hf a (t.advance n)
    rw [bind_of_ok h]
    exact ⟨⟨n + m, by rw [hm, Scanner.advance_advance]⟩, herror'⟩

theorem Steady.map (hx : Steady x) (f : α → β) : Steady (f <$> x) := by
  have hmap : f <$> x = x >>= fun a => pure (f a) := (bind_pure_comp f x).symm
  rw [hmap]
  exact hx.bind fun a => steady_pure (f a)

theorem Steady.bool {b : Bool} {x' : Scan α} (hx : Steady x) (hx' : Steady x') :
    Steady (if b then x else x') := by
  split <;> assumption

theorem steady_peek (skip : Bool) : Steady (peek skip) := by
  refine steady_of_ok fun t => ?_
  obtain ⟨n, hn⟩ := t.exists_settled skip
  exact ⟨_, n, congrArg _ hn⟩

theorem steady_skipBlanks : Steady skipBlanks := steady_of_ok fun _ => ⟨(), _, rfl⟩

theorem steady_atEnd (skip : Bool) : Steady (atEnd skip) :=
  (steady_peek skip).bind fun _ => steady_pure _

theorem steady_next (skip : Bool) : Steady (next skip) := by
  refine steady_of_ok fun t => ?_
  obtain ⟨n, hn⟩ := t.exists_settled skip
  refine ⟨(t.settled skip).rest.head?, n + 1, ?_⟩
  rw [← Scanner.advance_advance, ← hn]
  rfl

theorem steady_testAny (words : List String) (skip : Bool) : Steady (testAny words skip) := by
  refine steady_of_ok fun t => ?_
  obtain ⟨n, hn⟩ := t.exists_settled skip
  exact ⟨_, n, congrArg _ hn⟩

theorem steady_consumeAny (words : List String) (skip : Bool) :
    Steady (consumeAny words skip) := by
  refine steady_of_ok fun t => ?_
  obtain ⟨n, hn⟩ := t.exists_settled skip
  unfold consumeAny
  rw [hn]
  cases hw : longest words (t.advance n).rest with
  | none => exact ⟨none, n, by simp only [hw]⟩
  | some w => exact ⟨some w, n + w.length, by simp only [hw, Scanner.advance_advance]⟩

theorem steady_accept (token : String) (skip : Bool) : Steady (accept token skip) :=
  (steady_consumeAny [token] skip).bind fun _ => steady_pure _

theorem steady_expect (token : String) (skip : Bool) : Steady (expect token skip) :=
  (steady_accept token skip).bind fun _ => (steady_fail _).bool (steady_pure ())

theorem steady_expectEnd : Steady expectEnd :=
  (steady_atEnd true).bind fun _ => (steady_fail _).bool (steady_pure ())

theorem steady_quoted : Steady quoted := by
  intro t
  unfold quoted
  split
  · exact steady_fail _ t
  · split
    · split
      · exact ⟨⟨_, rfl⟩, nofun⟩
      · exact steady_fail _ t
    · exact steady_fail _ t

/-- A reader that moves the cursor on and fails there. -/
theorem steady_fail_advance (message : String) (t : Scanner) (n : Nat) :
    (∃ m, stateLeft ((fail message : Scan α) (t.advance n)) = t.advance m) ∧
      ∀ e t', (fail message : Scan α) (t.advance n) = .error e t' →
        ∃ message, e = t'.error message :=
  ⟨⟨n, rfl⟩, (steady_fail message (t.advance n)).2⟩

theorem steady_unquoted (stops : List Char) : Steady (unquoted stops) := by
  intro t
  unfold unquoted
  dsimp only
  split
  · exact steady_fail_advance _ t _
  · split
    · exact steady_fail_advance _ t _
    · exact ⟨⟨_, rfl⟩, nofun⟩

theorem steady_string (stops : List Char) : Steady (string stops) := by
  refine (steady_peek true).bind fun c => ?_
  cases c with
  | none => exact steady_unquoted stops
  | some c =>
    intro t
    exact (steady_quoted.bool (steady_unquoted stops)) t

theorem steady_atNumber : Steady atNumber :=
  steady_of_ok fun t => ⟨_, 0, congrArg _ t.advance_zero.symm⟩

theorem steady_number : Steady number := by
  intro t
  unfold number
  split
  · exact steady_fail _ t
  · dsimp only
    split
    · exact ⟨⟨_, rfl⟩, nofun⟩
    · split
      · exact steady_fail_advance _ t _
      · split
        · exact steady_fail_advance _ t _
        · exact ⟨⟨_, rfl⟩, nofun⟩

theorem steady_int : Steady int := by
  intro t
  have hnumber := steady_number t
  unfold int
  split
  · next n t' hn =>
    rw [hn] at hnumber
    split
    · exact ⟨hnumber.1, nofun⟩
    · exact steady_fail _ t
  · next e t' he =>
    rw [he] at hnumber
    refine ⟨hnumber.1, ?_⟩
    rintro _ _ ⟨⟩
    exact hnumber.2 e t' rfl

theorem steady_upper (min : Option Int64) : Steady (upper min) := by
  refine (steady_accept ".." false).bind fun dots => ?_
  cases dots with
  | false => exact steady_pure _
  | true =>
    refine steady_atNumber.bind fun found => ?_
    cases found with
    | true => exact (steady_int.map some).bind fun _ => (steady_fail _).bool (steady_pure _)
    | false => exact (steady_pure none).bind fun _ => (steady_fail _).bool (steady_pure _)

theorem steady_range : Steady range := by
  refine (steady_testAny [".."] false).bind fun found => ?_
  cases found with
  | some dots => exact (steady_pure none).bind steady_upper
  | none => exact (steady_int.map some).bind steady_upper

theorem steady_bool : Steady bool := by
  intro t
  refine ((steady_consumeAny (t.lexicon.trueWords ++ t.lexicon.falseWords) false).bind
    fun word => ?_) t
  cases word with
  | some word => exact steady_pure _
  | none => exact steady_fail _

theorem steady_takeWhile (p : Char → Bool) : Steady (takeWhile p) :=
  steady_of_ok fun _ => ⟨_, _, rfl⟩

end Scan

/-! ## Operations -/

/-- What may be asked of a scanner at its cursor. -/
inductive ScannerOp where
  | skipBlanks
  | atEnd (skip : Bool)
  | peek (skip : Bool)
  | next (skip : Bool)
  | testAny (words : List String) (skip : Bool)
  | consumeAny (words : List String) (skip : Bool)
  | expect (token : String) (skip : Bool)
  | expectEnd
  | quoted
  | unquoted (stops : List Char)
  | string (stops : List Char)
  | atNumber
  | number
  | int
  | range
  | bool
  | takeWhile (p : Char → Bool)
  | rest
  /-- Builds an error, and fails with it. -/
  | fail (message : String)

namespace ScannerOp

def Answer : ScannerOp → Type
  | skipBlanks | expect _ _ | expectEnd | fail _ => Unit
  | atEnd _ | atNumber | bool => Bool
  | peek _ | next _ => Option Char
  | testAny _ _ | consumeAny _ _ => Option String
  | quoted | unquoted _ | string _ | takeWhile _ => String
  | number => Number
  | int => Int64
  | range => IntRange
  | rest => List Char

/-- The operation on a scanner that is split at its cursor. -/
def read : (op : ScannerOp) → Scan op.Answer
  | skipBlanks => Scan.skipBlanks
  | atEnd skip => Scan.atEnd skip
  | peek skip => Scan.peek skip
  | next skip => Scan.next skip
  | testAny words skip => Scan.testAny words skip
  | consumeAny words skip => Scan.consumeAny words skip
  | expect token skip => Scan.expect token skip
  | expectEnd => Scan.expectEnd
  | quoted => Scan.quoted
  | unquoted stops => Scan.unquoted stops
  | string stops => Scan.string stops
  | atNumber => Scan.atNumber
  | number => Scan.number
  | int => Scan.int
  | range => Scan.range
  | bool => Scan.bool
  | takeWhile p => Scan.takeWhile p
  | rest => fun t => .ok t.rest t
  | fail message => (Scan.fail message : Scan Unit)

/-- The operation on a scanner whose cursor counts bytes. -/
def run : (op : ScannerOp) → ByteScan op.Answer
  | skipBlanks => ByteScan.skipBlanks
  | atEnd skip => ByteScan.atEnd skip
  | peek skip => ByteScan.peek skip
  | next skip => ByteScan.next skip
  | testAny words skip => ByteScan.testAny words skip
  | consumeAny words skip => ByteScan.consumeAny words skip
  | expect token skip => ByteScan.expect token skip
  | expectEnd => ByteScan.expectEnd
  | quoted => ByteScan.quoted
  | unquoted stops => ByteScan.unquoted stops
  | string stops => ByteScan.string stops
  | atNumber => ByteScan.atNumber
  | number => ByteScan.number
  | int => ByteScan.int
  | range => ByteScan.range
  | bool => ByteScan.bool
  | takeWhile p => ByteScan.takeWhile p
  | rest => ByteScan.rest
  | fail message => (ByteScan.fail message : ByteScan Unit)

theorem agrees : (op : ScannerOp) → Agrees op.run op.read
  | skipBlanks => agrees_skipBlanks
  | atEnd skip => agrees_atEnd skip
  | peek skip => agrees_peek skip
  | next skip => agrees_next skip
  | testAny words skip => agrees_testAny words skip
  | consumeAny words skip => agrees_consumeAny words skip
  | expect token skip => agrees_expect token skip
  | expectEnd => agrees_expectEnd
  | quoted => agrees_quoted
  | unquoted stops => agrees_unquoted stops
  | string stops => agrees_string stops
  | atNumber => agrees_atNumber
  | number => agrees_number
  | int => agrees_int
  | range => agrees_range
  | bool => agrees_bool
  | takeWhile p => agrees_takeWhile p
  | rest => rest_bytes
  | fail message => agrees_fail message

theorem steady : (op : ScannerOp) → Scan.Steady op.read
  | skipBlanks => Scan.steady_skipBlanks
  | atEnd skip => Scan.steady_atEnd skip
  | peek skip => Scan.steady_peek skip
  | next skip => Scan.steady_next skip
  | testAny words skip => Scan.steady_testAny words skip
  | consumeAny words skip => Scan.steady_consumeAny words skip
  | expect token skip => Scan.steady_expect token skip
  | expectEnd => Scan.steady_expectEnd
  | quoted => Scan.steady_quoted
  | unquoted stops => Scan.steady_unquoted stops
  | string stops => Scan.steady_string stops
  | atNumber => Scan.steady_atNumber
  | number => Scan.steady_number
  | int => Scan.steady_int
  | range => Scan.steady_range
  | bool => Scan.steady_bool
  | takeWhile p => Scan.steady_takeWhile p
  | rest => Scan.steady_of_ok fun t => ⟨_, 0, congrArg _ t.advance_zero.symm⟩
  | fail message => Scan.steady_fail message

end ScannerOp

/-! ## Sequences of calls -/

namespace Scanner

theorem charsWithin_append (a b : List Char) :
    charsWithin (Text.byteLength a) (a ++ b) = a.length + charsWithin 0 b := by
  induction a with
  | nil => exact (Nat.zero_add _).symm
  | cons c a ih =>
    have hle : c.utf8Size ≤ Text.byteLength (c :: a) := Nat.le_add_right _ _
    have hrest : Text.byteLength (c :: a) - c.utf8Size = Text.byteLength a :=
      Nat.add_sub_cancel_left _ _
    rw [List.cons_append, charsWithin, if_pos hle, hrest, ih, List.length_cons]
    exact Nat.add_right_comm _ _ _

theorem charsWithin_zero (s : List Char) : charsWithin 0 s = 0 := by
  cases s with
  | nil => rfl
  | cons c s => exact if_neg (Nat.not_le.2 c.utf8Size_pos)

/-- Back at a character boundary, the cursor counts the bytes up to there. -/
theorem bytes_seek {t : Scanner} {a b : List Char} (h : t.source = a ++ b) :
    (t.seek (Text.byteLength a)).bytes = { t.bytes with position := Text.byteLength a } := by
  have hchars : charsWithin (Text.byteLength a) t.source = a.length := by
    rw [h, charsWithin_append, charsWithin_zero, Nat.add_zero]
  have htake : t.source.take a.length = a := by rw [h, List.take_left]
  unfold seek
  rw [hchars, bytes_advance]
  simp only [bytes, ByteScanner.moved, source, position, List.reverse_nil, List.nil_append,
    Text.byteLength, Nat.zero_add]
  rw [← source, htake]

/-- The error is of a character boundary of the text, and shows up to eight characters on either
side of it. -/
def Shows (text : String) (position : Nat) (e : Error) : Prop :=
  ∃ message before after a b, e = Fault.parse message position before after ∧
    text = a ++ b ∧ a.utf8ByteSize = position ∧
    before.toList <:+ a.toList ∧ before.length ≤ window ∧
    after.toList <+: b.toList ∧ after.length ≤ window

theorem isValid_bytes {t : Scanner} {text : String} (h : t.source = text.toList) :
    (⟨t.bytes.position⟩ : String.Pos.Raw).IsValid text :=
  (Text.isValid_iff text t.position).2
    ⟨t.consumed.reverse, t.rest, h.symm, Text.byteLength_reverse _⟩

theorem position_le {t : Scanner} {text : String} (h : t.source = text.toList) :
    t.bytes.position ≤ text.utf8ByteSize :=
  (isValid_bytes h).le_rawEndPos

theorem position_le_advance (t : Scanner) (n : Nat) :
    t.bytes.position ≤ (t.advance n).bytes.position := by
  rw [bytes_advance]
  exact Nat.le_add_right _ _

theorem shows_error {t : Scanner} {text : String} (h : t.source = text.toList) (message : String) :
    Shows text t.position (t.error message) := by
  refine ⟨message, _, _, String.ofList t.consumed.reverse, String.ofList t.rest, rfl, ?_, ?_, ?_⟩
  · rw [← String.ofList_append, ← source, h, String.ofList_toList]
  · rw [Text.utf8ByteSize_ofList, Text.byteLength_reverse]
    rfl
  · simp only [String.toList_ofList, String.length_ofList, List.length_reverse,
      List.reverse_suffix, List.length_take]
    exact ⟨List.take_prefix _ _, Nat.min_le_left _ _, List.take_prefix _ _, Nat.min_le_left _ _⟩

end Scanner

/-- What a parser does with its scanner. -/
inductive ScannerCall where
  | ask (op : ScannerOp)
  | checkpoint
  /-- Puts the cursor where it was at the checkpoint of that index, if there was one. -/
  | rewind (index : Nat)

/-- A call on a scanner, and on the offsets of the checkpoints so far. -/
def ScannerCall.on {σ : Type} (ask : ScannerOp → σ → σ) (position : σ → Nat) (seek : σ → Nat → σ) :
    ScannerCall → σ × List Nat → σ × List Nat
  | .ask op, (s, saved) => (ask op s, saved)
  | checkpoint, (s, saved) => (s, saved ++ [position s])
  | rewind index, (s, saved) => ((saved[index]?.map (seek s)).getD s, saved)

def ScannerCall.read : ScannerCall → Scanner × List Nat → Scanner × List Nat :=
  on (fun op t => stateLeft (op.read t)) Scanner.position Scanner.seek

def ScannerCall.run : ScannerCall → ByteScanner × List Nat → ByteScanner × List Nat :=
  on (fun op s => stateLeft (op.run s)) ByteScanner.position ByteScanner.seek

/-- The scanner that some calls on the start of a text leave. -/
def Scanner.after (lexicon : Lexicon) (text : String) (calls : List ScannerCall) :
    Scanner × List Nat :=
  calls.foldl (fun t call => call.read t) (.ofText lexicon text, [])

def ByteScanner.after (lexicon : Lexicon) (text : String) (calls : List ScannerCall) :
    ByteScanner × List Nat :=
  calls.foldl (fun s call => call.run s) (⟨lexicon, text.toList, 0⟩, [])

/-- What calls preserve: the scanner is one of the text, and the checkpoints are character
boundaries of it. -/
structure Scanner.Of (text : String) (t : Scanner × List Nat) : Prop where
  source : t.1.source = text.toList
  boundary : ∀ offset ∈ t.2, ∃ a b, text.toList = a ++ b ∧ Text.byteLength a = offset

section

variable {text : String} {t : Scanner × List Nat}

theorem ScannerOp.stateLeft_run (op : ScannerOp) (t : Scanner) :
    stateLeft (op.run t.bytes) = (stateLeft (op.read t)).bytes := by
  rw [op.agrees t]
  cases op.read t <;> rfl

theorem Scanner.source_seek (t : Scanner) (offset : Nat) : (t.seek offset).source = t.source :=
  source_advance _ _

theorem Scanner.Of.read (h : Of text t) (call : ScannerCall) : Of text (call.read t) := by
  obtain ⟨t, saved⟩ := t
  obtain ⟨hsource, hboundary⟩ := h
  cases call with
  | ask op =>
    obtain ⟨⟨n, hn⟩, -⟩ := op.steady t
    have hleft : (stateLeft (op.read t)).source = t.source := by rw [hn, source_advance]
    exact ⟨hleft.trans hsource, hboundary⟩
  | checkpoint =>
    refine ⟨hsource, ?_⟩
    intro offset hoffset
    rcases List.mem_append.1 hoffset with hoffset | hoffset
    · exact hboundary offset hoffset
    · obtain rfl := List.mem_singleton.1 hoffset
      exact ⟨t.consumed.reverse, t.rest, hsource.symm, Text.byteLength_reverse _⟩
  | rewind index =>
    refine ⟨?_, hboundary⟩
    simp only [ScannerCall.read, ScannerCall.on]
    cases saved[index]? with
    | none => exact hsource
    | some offset => exact (t.source_seek offset).trans hsource

/-- Counted in bytes, a call does what it does on the scanner that is split. -/
theorem Scanner.Of.run (h : Of text t) (call : ScannerCall) :
    call.run (t.1.bytes, t.2) = ((call.read t).1.bytes, (call.read t).2) := by
  obtain ⟨t, saved⟩ := t
  cases call with
  | ask op => exact congrArg (·, saved) (op.stateLeft_run t)
  | checkpoint => rfl
  | rewind index =>
    simp only [ScannerCall.run, ScannerCall.read, ScannerCall.on]
    cases hindex : saved[index]? with
    | none => rfl
    | some offset =>
      obtain ⟨a, b, hab, rfl⟩ := h.boundary offset (List.mem_of_getElem? hindex)
      exact congrArg (·, saved) (bytes_seek (h.source.trans hab)).symm

theorem Scanner.Of.foldl (h : Of text t) (calls : List ScannerCall) :
    Of text (calls.foldl (fun t call => call.read t) t) ∧
      calls.foldl (fun s call => call.run s) (t.1.bytes, t.2) =
        ((calls.foldl (fun t call => call.read t) t).1.bytes,
          (calls.foldl (fun t call => call.read t) t).2) := by
  induction calls generalizing t with
  | nil => exact ⟨h, rfl⟩
  | cons call calls ih =>
    rw [List.foldl_cons, List.foldl_cons, h.run call]
    exact ih (h.read call)

/-- After any calls the scanner that counts bytes is at a character boundary of the text, the one
that the split scanner is at. Whatever is asked of it there, it does as the split scanner does,
and halts at no slice; it does not take the cursor back; and an error is of a character
boundary. -/
theorem Scanner.stays_on_boundaries (lexicon : Lexicon) (text : String)
    (calls : List ScannerCall) :
    let s := (ByteScanner.after lexicon text calls).1
    let t := (Scanner.after lexicon text calls).1
    s = t.bytes ∧ s.source = text.toList ∧
      (⟨s.position⟩ : String.Pos.Raw).IsValid text ∧ s.position ≤ text.utf8ByteSize ∧
      ∀ op : ScannerOp,
        op.run s = mapError Halt.error (mapState Scanner.bytes (op.read t)) ∧
        s.position ≤ (stateLeft (op.run s)).position ∧
        ∀ halt s', op.run s = .error halt s' →
          ∃ e, halt = .error e ∧ Scanner.Shows text s'.position e := by
  intro s t
  have hstart : Of text (.ofText lexicon text, []) := ⟨rfl, nofun⟩
  obtain ⟨ht, hs⟩ := hstart.foldl calls
  have hbytes : s = t.bytes := congrArg Prod.fst hs
  have hsource : t.source = text.toList := ht.source
  rw [hbytes]
  refine ⟨rfl, hsource, isValid_bytes hsource, position_le hsource, fun op => ⟨op.agrees t, ?_, ?_⟩⟩
  · obtain ⟨⟨n, hn⟩, -⟩ := op.steady t
    rw [op.stateLeft_run, hn]
    exact t.position_le_advance n
  · intro halt s' hrun
    rw [op.agrees t] at hrun
    cases hread : op.read t with
    | ok a t' =>
      rw [hread] at hrun
      cases hrun
    | error e t' =>
      obtain ⟨⟨n, hn⟩, herror⟩ := op.steady t
      obtain ⟨message, rfl⟩ := herror e t' hread
      rw [hread] at hrun hn
      cases hrun
      have hleft : t' = t.advance n := hn
      have hsource' : t'.source = text.toList := by rw [hleft, source_advance, hsource]
      exact ⟨_, rfl, shows_error hsource' message⟩

/-- Back behind the first character, which takes two bytes, an integer is not found, and the
cursor stays. -/
theorem Scanner.stays_on_boundaries_rewound :
    let s := (ByteScanner.after .ascii "é1.5"
      [.ask (.next false), .checkpoint, .ask .number, .rewind 0]).1
    s.position = 2 ∧ (⟨s.position⟩ : String.Pos.Raw).IsValid "é1.5" ∧
      ∃ e s', ScannerOp.int.run s = .error (.error e) s' ∧ s'.position = 2 ∧
        Scanner.Shows "é1.5" 2 e := by
  obtain ⟨hbytes, -, hvalid, -, hop⟩ := stays_on_boundaries .ascii "é1.5"
    [.ask (.next false), .checkpoint, .ask .number, .rewind 0]
  obtain ⟨hrun, -, hshows⟩ := hop .int
  have hread : let t := (Scanner.after .ascii "é1.5"
        [.ask (.next false), .checkpoint, .ask .number, .rewind 0]).1
      t.position = 2 ∧ (error? (ScannerOp.int.read t)).isSome ∧
        (stateLeft (ScannerOp.int.read t)).position = 2 := by
    decide +kernel
  obtain ⟨hposition, herror, hleft⟩ := hread
  refine ⟨?_, hvalid, ?_⟩
  · rw [hbytes]
    exact hposition
  · cases h : ScannerOp.int.read (Scanner.after .ascii "é1.5"
        [.ask (.next false), .checkpoint, .ask .number, .rewind 0]).1 with
    | ok a t' => rw [h] at herror; cases herror
    | error e t' =>
      rw [h] at hrun hleft
      obtain ⟨_, ⟨⟩, he⟩ := hshows _ _ hrun
      have hstay : t'.bytes.position = 2 := hleft
      rw [hstay] at he
      exact ⟨e, t'.bytes, hrun, hstay, he⟩

end

end CommandChain
