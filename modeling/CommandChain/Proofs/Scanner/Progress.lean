import CommandChain.Proofs.Scanner.Boundary

/-!
# Progress of readers

`Scan.commaSeparated` and `Scan.beyond` refuse to go on where the cursor has not moved. The
readers here do not: their rounds and nested calls are counted instead, up to a limit beyond
which they are cut off (`Cut.limit`). They count bytes, and note where the cursor was
(`ScanEvent`).

A reader follows one of `Scan` from a place in the text if it does the same from there, and if
every event that it notes is forward: a round or a nested call starts further on than the one
before it, and the cursor is never past the end (`Traced.FollowsAt`). The loops follow
`Scan.commaSeparated` and `Scan.itemsThrough` where no more is left of the text than the limit
allows for, since every round passes a comma.
-/

namespace CommandChain

/-- What is noted of the cursor. -/
inductive ScanEvent where
  /-- A reader has left the cursor there. -/
  | left (cursor : Nat)
  /-- A further round of a loop starts at `cursor`, and the one before it started at `before`. -/
  | round (before cursor : Nat)
  /-- A value starts at `cursor`, inside the one that started at `around`. -/
  | nested (around cursor : Nat)
  deriving DecidableEq

/-- The cursor has gone forward, in a text of so many bytes. -/
def ScanEvent.Forward (size : Nat) : ScanEvent → Prop
  | left cursor => cursor ≤ size
  | round before cursor => before < cursor ∧ cursor ≤ size
  | nested around cursor => around < cursor ∧ cursor ≤ size

/-- What ends a reader that is limited. -/
inductive Cut where
  | halt (h : Halt)
  /-- More rounds or nested calls than the limit allows for. -/
  | limit

/-- A limited reader of text with a cursor in bytes, which notes events. -/
abbrev Traced := EStateM Cut (ByteScanner × List ScanEvent)

/-! ## Cursors further on -/

namespace Scanner

variable {t t' : Scanner}

/-- The cursor of `t'` is further on in the text. -/
def Before (t t' : Scanner) : Prop := ∃ n, t' = t.advance n ∧ t'.rest.length < t.rest.length

theorem length_rest_advance_le (t : Scanner) (n : Nat) :
    (t.advance n).rest.length ≤ t.rest.length := by
  rw [rest_advance, List.length_drop]
  exact Nat.sub_le _ _

theorem position_le_source (t : Scanner) : t.position ≤ Text.byteLength t.source := by
  rw [source, Text.byteLength_append, Text.byteLength_reverse]
  exact Nat.le_add_right _ _

theorem Before.length_lt (h : t.Before t') : t'.rest.length < t.rest.length := h.choose_spec.2

theorem Before.position_lt (h : t.Before t') : t.position < t'.position := by
  obtain ⟨n, rfl, hless⟩ := h
  have hne : t.rest.take n ≠ [] := by
    intro hnil
    rw [rest_advance, List.length_drop] at hless
    rcases List.take_eq_nil_iff.1 hnil with rfl | hrest
    · omega
    · simp [hrest] at hless
  obtain ⟨c, text, htext⟩ := List.exists_cons_of_ne_nil hne
  have hbytes := Text.byteLength_cons_ne_zero c text
  rw [position_advance, htext]
  omega

theorem Before.of_advance {n : Nat} (h : (t.advance n).Before t') : t.Before t' := by
  obtain ⟨m, rfl, hless⟩ := h
  exact ⟨n + m, t.advance_advance n m, hless.trans_le (t.length_rest_advance_le n)⟩

theorem Before.advance (h : t.Before t') (n : Nat) : t.Before (t'.advance n) := by
  obtain ⟨m, rfl, hless⟩ := h
  exact ⟨m + n, t.advance_advance m n, ((t.advance m).length_rest_advance_le n).trans_lt hless⟩

/-- The cursor goes forward to there, and is not past the end. -/
theorem Before.forward (h : t.Before t') :
    t.position < t'.position ∧ t'.position ≤ Text.byteLength t'.source :=
  ⟨h.position_lt, t'.position_le_source⟩

end Scanner

namespace Scan

variable {α : Type} {t t' : Scanner} {token : String}

theorem accept_before (hne : token.toList ≠ []) {skip : Bool}
    (h : accept token skip t = .ok true t') : t.Before t' := by
  rw [accept_eq hne] at h
  split at h
  · next hprefix =>
    cases h
    obtain ⟨n, hn⟩ := t.exists_settled skip
    rw [hn] at hprefix ⊢
    refine Scanner.Before.of_advance (n := n) ⟨token.length, rfl, ?_⟩
    have hle := (List.isPrefixOf_iff_prefix.1 hprefix).length_le
    have hpos := List.length_pos_of_ne_nil hne
    rw [String.length_toList] at hle hpos
    rw [Scanner.rest_advance, List.length_drop]
    omega
  · cases h

theorem expect_before (hne : token.toList ≠ []) {skip : Bool}
    (h : expect token skip t = .ok () t') : t.Before t' := by
  obtain ⟨found, t₁, hfound, h₁⟩ := bind_eq_ok_iff.1 h
  cases found with
  | false => cases h₁
  | true =>
    cases h₁
    exact accept_before hne hfound

theorem beyond_of_lt {read : (u : Scanner) → u.rest.length < t.rest.length →
    EStateM.Result Error Scanner α} (h : t'.rest.length < t.rest.length) :
    beyond t read t' = read t' h := dif_pos h

/-- The loop as a sequence of readers. -/
theorem commaSeparated_eq (item : Scan α) (close : String) (t : Scanner) :
    commaSeparated item close t = (do
      let a ← item
      if ← accept "," true then return a :: (← beyond t fun u _ => commaSeparated item close u)
      else
        expect close true
        return [a] : Scan (List α)) t := by
  rw [commaSeparated]
  simp only [bind, EStateM.bind]
  cases item t with
  | error e t₁ => rfl
  | ok a t₁ =>
    dsimp only
    cases accept "," true t₁ with
    | error e t₂ => rfl
    | ok more t₂ =>
      cases more with
      | false => rfl
      | true =>
        simp only [if_true, EStateM.bind, beyond]
        split
        · cases commaSeparated item close t₂ <;> rfl
        · rfl

end Scan

/-! ## Limited readers -/

namespace Traced

variable {α β : Type}

/-- Calls a reader, and notes where it left the cursor. -/
def call (x : ByteScan α) : Traced α := fun (s, log) =>
  mapError Cut.halt (mapState (fun s' => (s', log ++ [.left s'.position])) (x s))

def cursor : Traced Nat := return (← get).1.position

def lexicon : Traced Lexicon := return (← get).1.lexicon

def note (event : ScanEvent) : Traced Unit := modify fun (s, log) => (s, log ++ [event])

/-- One or more items between commas, through `close`. -/
def items (item : Traced α) (close : String) : Nat → Traced (List α)
  | 0 => throw .limit
  | limit + 1 => do
    let start ← cursor
    let a ← item
    if ← call (ByteScan.accept "," true) then
      note (.round start (← cursor))
      return a :: (← items item close limit)
    else
      call (ByteScan.expect close true)
      return [a]

/-- The items after an opening bracket, through `close`. -/
def itemsThrough (item : Traced α) (close : String) (limit : Nat) : Traced (List α) := do
  if ← call (ByteScan.accept close true) then return [] else items item close limit

/-- The items between two brackets. -/
def bracketed (openBracket close : String) (item : Traced α) (limit : Nat) : Traced (List α) := do
  call (ByteScan.expect openBracket true)
  itemsThrough item close limit

/-! ## Readers that do the same -/

/-- The result with the cursor in bytes, and the events noted so far. -/
def traced (log : List ScanEvent) (r : EStateM.Result Error Scanner α) :
    EStateM.Result Cut (ByteScanner × List ScanEvent) α :=
  mapError (fun e => .halt (.error e)) (mapState (fun t => (t.bytes, log)) r)

/-- At `u` the one reader does what the other does, which leaves the cursor no less far on than
at `t`, and the events that it notes are forward. -/
def Follows (t u : Scanner) (x : Traced α) (y : Scan α) : Prop :=
  (∃ n, stateLeft (y u) = t.advance n) ∧
    ∃ events : List ScanEvent, (∀ e ∈ events, e.Forward (Text.byteLength t.source)) ∧
      ∀ log, x (u.bytes, log) = traced (log ++ events) (y u)

abbrev FollowsAt (t : Scanner) (x : Traced α) (y : Scan α) : Prop := Follows t t x y

/-- The one reader follows the other at `t` and wherever the cursor may move from there. -/
def FollowsFrom (t : Scanner) (x : Traced α) (y : Scan α) : Prop :=
  ∀ n, FollowsAt (t.advance n) x y

section

variable {t u : Scanner} {x : Traced α} {y : Scan α}

theorem FollowsFrom.at (h : FollowsFrom t x y) : FollowsAt t x y := t.advance_zero ▸ h 0

theorem FollowsFrom.advance (h : FollowsFrom t x y) (n : Nat) :
    FollowsFrom (t.advance n) x y := by
  intro m
  rw [Scanner.advance_advance]
  exact h (n + m)

theorem Follows.congr {y' : Scan α} (h : Follows t u x y') (heq : y u = y' u) :
    Follows t u x y := by
  unfold Follows
  rw [heq]
  exact h

theorem FollowsAt.from_advance {n : Nat} (h : FollowsAt (t.advance n) x y) :
    Follows t (t.advance n) x y := by
  obtain ⟨⟨m, hm⟩, events, hevents, hx⟩ := h
  rw [Scanner.source_advance] at hevents
  exact ⟨⟨n + m, by rw [hm, Scanner.advance_advance]⟩, events, hevents, hx⟩

theorem Follows.bind {f : α → Traced β} {g : α → Scan β} (h : Follows t u x y)
    (hf : ∀ a n, y u = .ok a (t.advance n) → Follows t (t.advance n) (f a) (g a)) :
    Follows t u (x >>= f) (y >>= g) := by
  obtain ⟨⟨n, hn⟩, events, hevents, hx⟩ := h
  cases hy : y u with
  | error e t' =>
    simp only [hy] at hx hn
    refine ⟨⟨n, by rw [bind_of_error hy]; exact hn⟩, events, hevents, fun log => ?_⟩
    rw [bind_of_error (hx log), bind_of_error hy]
    rfl
  | ok a t' =>
    simp only [hy] at hx hn
    obtain rfl : t' = t.advance n := hn
    obtain ⟨⟨m, hm⟩, events', hevents', hf'⟩ := hf a n hy
    refine ⟨⟨m, by rw [bind_of_ok hy, hm]⟩, events ++ events', ?_, fun log => ?_⟩
    · exact List.forall_mem_append.2 ⟨hevents, hevents'⟩
    · rw [bind_of_ok (hx log), bind_of_ok hy, ← List.append_assoc]
      exact hf' (log ++ events)

theorem FollowsAt.bind {f : α → Traced β} {g : α → Scan β} (h : FollowsAt t x y)
    (hf : ∀ a n, y t = .ok a (t.advance n) → FollowsAt (t.advance n) (f a) (g a)) :
    FollowsAt t (x >>= f) (y >>= g) :=
  Follows.bind h fun a n ha => (hf a n ha).from_advance

theorem FollowsFrom.bind {f : α → Traced β} {g : α → Scan β} (h : FollowsFrom t x y)
    (hf : ∀ a, FollowsFrom t (f a) (g a)) : FollowsFrom t (x >>= f) (y >>= g) :=
  fun n => (h n).bind fun a m _ => (hf a).advance n m

theorem followsAt_pure (a : α) : FollowsAt t (pure a) (pure a) :=
  ⟨⟨0, t.advance_zero.symm⟩, [], nofun, fun log => by rw [List.append_nil]; rfl⟩

theorem followsFrom_pure (a : α) : FollowsFrom t (pure a) (pure a) := fun _ => followsAt_pure a

theorem FollowsAt.map (h : FollowsAt t x y) (f : α → β) : FollowsAt t (f <$> x) (f <$> y) := by
  rw [← bind_pure_comp, ← bind_pure_comp]
  exact h.bind fun a _ _ => followsAt_pure (f a)

theorem Follows.ite {p : Prop} [Decidable p] {x' : Traced α} {y' : Scan α}
    (h : Follows t u x y) (h' : Follows t u x' y') :
    Follows t u (if p then x else x') (if p then y else y') := by
  split <;> assumption

theorem followsAt_call {x : ByteScan α} (h : Agrees x y) (hsteady : Scan.Steady y) :
    FollowsAt t (call x) y := by
  obtain ⟨⟨n, hn⟩, -⟩ := hsteady t
  refine ⟨⟨n, hn⟩, [.left (stateLeft (y t)).position], ?_, fun log => ?_⟩
  · refine List.forall_mem_singleton.2 ?_
    rw [hn, ← t.source_advance n]
    exact Scanner.position_le_source _
  · simp only [call, h t]
    cases y t <;> rfl

theorem followsAt_fail (message : String) :
    FollowsAt t (call (ByteScan.fail message) : Traced α) (Scan.fail message) :=
  followsAt_call (agrees_fail message) (Scan.steady_fail message)

theorem followsAt_peek (skip : Bool) :
    FollowsAt t (call (ByteScan.peek skip)) (Scan.peek skip) :=
  followsAt_call (agrees_peek skip) (Scan.steady_peek skip)

theorem followsAt_next (skip : Bool) :
    FollowsAt t (call (ByteScan.next skip)) (Scan.next skip) :=
  followsAt_call (agrees_next skip) (Scan.steady_next skip)

theorem followsAt_testAny (words : List String) (skip : Bool) :
    FollowsAt t (call (ByteScan.testAny words skip)) (Scan.testAny words skip) :=
  followsAt_call (agrees_testAny words skip) (Scan.steady_testAny words skip)

theorem followsAt_accept (token : String) (skip : Bool) :
    FollowsAt t (call (ByteScan.accept token skip)) (Scan.accept token skip) :=
  followsAt_call (agrees_accept token skip) (Scan.steady_accept token skip)

theorem followsAt_expect (token : String) (skip : Bool) :
    FollowsAt t (call (ByteScan.expect token skip)) (Scan.expect token skip) :=
  followsAt_call (agrees_expect token skip) (Scan.steady_expect token skip)

theorem followsAt_string (stops : List Char) :
    FollowsAt t (call (ByteScan.string stops)) (Scan.string stops) :=
  followsAt_call (agrees_string stops) (Scan.steady_string stops)

/-- A first reader that only looks at the scanner. -/
theorem Follows.look_bind {look : Traced β} {f : β → Traced α} {b : β}
    (hlook : ∀ log, look (u.bytes, log) = .ok b (u.bytes, log)) (h : Follows t u (f b) y) :
    Follows t u (look >>= f) y := by
  obtain ⟨hn, events, hevents, hf⟩ := h
  refine ⟨hn, events, hevents, fun log => ?_⟩
  rw [bind_of_ok (hlook log)]
  exact hf log

theorem Follows.cursor_bind {f : Nat → Traced α} (h : Follows t u (f u.position) y) :
    Follows t u (cursor >>= f) y :=
  look_bind (fun _ => rfl) h

theorem Follows.lexicon_bind {f : Lexicon → Traced α} (h : Follows t u (f u.lexicon) y) :
    Follows t u (lexicon >>= f) y :=
  look_bind (fun _ => rfl) h

theorem Follows.note_bind {event : ScanEvent} (hevent : event.Forward (Text.byteLength t.source))
    (h : Follows t u x y) : Follows t u (note event >>= fun _ => x) y := by
  obtain ⟨hn, events, hevents, hx⟩ := h
  refine ⟨hn, event :: events, List.forall_mem_cons.2 ⟨hevent, hevents⟩, fun log => ?_⟩
  have hnote : note event (u.bytes, log) = .ok () (u.bytes, log ++ [event]) := rfl
  rw [bind_of_ok hnote, hx, List.append_assoc]
  rfl

/-- Further on the reader is not refused. -/
theorem Follows.beyond {t' : Scanner} (h : Follows t u x y) (hbefore : t'.Before u) :
    Follows t u x (Scan.beyond t' fun v _ => y v) :=
  h.congr (Scan.beyond_of_lt hbefore.length_lt)

theorem Follows.get_bind {g : Scanner → Scan α} (h : Follows t u x (g u)) :
    Follows t u x (get >>= g) :=
  h.congr rfl

/-- The cursor is put back to where it was. -/
theorem FollowsAt.rewind (h : FollowsAt t x y) (n : Nat) :
    Follows t (t.advance n) (call (ByteScan.rewind t.position) >>= fun _ => x)
      (set t >>= fun _ => y) := by
  obtain ⟨hm, events, hevents, hx⟩ := h
  refine ⟨hm, .left t.position :: events, ?_, fun log => ?_⟩
  · exact List.forall_mem_cons.2 ⟨t.position_le_source, hevents⟩
  · have hrewind : call (ByteScan.rewind t.position) ((t.advance n).bytes, log) =
        .ok () (t.bytes, log ++ [.left t.position]) := by
      simp only [call, rewind_bytes]
      rfl
    rw [bind_of_ok hrewind, hx, List.append_assoc]
    rfl

end

/-! ## Loops -/

section

variable {t : Scanner} {item : Traced α} {item' : Scan α} {close : String} {limit : Nat}

/-- Every further round starts behind a comma, so that less is left of the text and a lower
limit will do. -/
theorem followsAt_items (hitem : FollowsFrom t item item') (hlimit : t.rest.length < limit) :
    FollowsAt t (items item close limit) (Scan.commaSeparated item' close) := by
  induction limit generalizing t with
  | zero => cases hlimit
  | succ limit ih =>
    refine Follows.congr (.cursor_bind ?_) (Scan.commaSeparated_eq item' close t)
    refine hitem.at.bind fun a n _ => ?_
    refine (followsAt_accept "," true).bind fun more m hmore => ?_
    cases more with
    | true =>
      have hbefore := (Scan.accept_before (by decide) hmore).of_advance
      have hless := hbefore.length_lt
      have hrest := ih ((hitem.advance n).advance m) (by omega)
      refine .cursor_bind (.note_bind hbefore.forward ?_)
      exact FollowsAt.bind (hrest.beyond hbefore) fun l _ _ => followsAt_pure (a :: l)
    | false =>
      exact (followsAt_expect close true).bind fun _ _ _ => followsAt_pure [a]

theorem followsAt_itemsThrough (hitem : FollowsFrom t item item')
    (hlimit : t.rest.length < limit) :
    FollowsAt t (itemsThrough item close limit) (Scan.itemsThrough item' close) := by
  refine (followsAt_accept close true).bind fun closed n _ => ?_
  cases closed with
  | true => exact followsAt_pure []
  | false =>
    exact followsAt_items (hitem.advance n) ((t.length_rest_advance_le n).trans_lt hlimit)

/-- The items start behind the bracket. -/
theorem followsAt_bracketed {openBracket : String} (hne : openBracket.toList ≠ [])
    (hitem : ∀ u, t.Before u → FollowsFrom u item item') (hlimit : t.rest.length ≤ limit) :
    FollowsAt t (bracketed openBracket close item limit)
      (Scan.bracketed openBracket close item') := by
  refine (followsAt_expect openBracket true).bind fun _ n hopen => ?_
  have hbefore := Scan.expect_before hne hopen
  exact followsAt_itemsThrough (hitem _ hbefore) (hbefore.length_lt.trans_le hlimit)

end

end Traced

end CommandChain
