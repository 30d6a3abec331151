import CommandChain.Proofs.Scanner.Progress
import CommandChain.Proofs.Value.Scanned

/-!
# Progress of values

The limited reader of values goes through the text as `ArgValue.scan` does, which it follows
where no more is left of the text than the limit allows for (`followsAt_value`). Where a number
or a boolean turns out to be text, it puts the cursor back, but only to where it was when the
number or the boolean began. A value inside another one starts behind the bracket of that one.
-/

namespace CommandChain.Traced

open ArgValue (stops scanFrom)

variable {t : Scanner} {limit : Nat}

/-! ## Tokens -/

/-- A value may end at the cursor. -/
def atTerminator : Traced Bool := do
  match ← call (ByteScan.peek false) with
  | none => return true
  | some c => return (← lexicon).whitespace.contains c || stops.contains c

/-- The value, if it may end at the cursor. -/
def terminated (value : ArgValue) : Traced ArgValue := do
  if ← atTerminator then return value else call (ByteScan.fail "unexpected text after value")

/-- The token as text. -/
def bareText : Traced ArgValue := ArgValue.text <$> call (ByteScan.unquoted stops)

def range : Traced ArgValue := ArgValue.range <$> call ByteScan.range

def numberOrText : Traced ArgValue := do
  let start ← cursor
  let number ← call ByteScan.number
  if (← call (ByteScan.testAny [".."] false)).isSome then
    call (ByteScan.rewind start)
    range
  else if ← atTerminator then
    match number.integer with
    | some n => return .int n
    | none => return .float number.value
  else
    call (ByteScan.rewind start)
    bareText

def boolOrText : Traced ArgValue := do
  let start ← cursor
  let value ← call ByteScan.bool
  if ← atTerminator then return .bool value
  else
    call (ByteScan.rewind start)
    bareText

def numberOrZero : Traced Float := do
  if ← call ByteScan.atNumber then return (← call ByteScan.number).value else return 0

/-- `~` with the number that directly follows it. -/
def relative : Traced ArgValue := do
  let _ ← call (ByteScan.next false)
  terminated (.relative (← numberOrZero))

/-- A value that is neither bracketed, quoted nor relative. -/
def token : Traced ArgValue := do
  if (← call (ByteScan.testAny [".."] false)).isSome then
    terminated (.range (← call ByteScan.range))
  else if ← call ByteScan.atNumber then numberOrText
  else if (← call (ByteScan.testAny ["true", "false"] false)).isSome then boolOrText
  else bareText

theorem followsAt_atNumber : FollowsAt t (call ByteScan.atNumber) Scan.atNumber :=
  followsAt_call agrees_atNumber Scan.steady_atNumber

theorem followsAt_number : FollowsAt t (call ByteScan.number) Scan.number :=
  followsAt_call agrees_number Scan.steady_number

theorem followsAt_atTerminator : FollowsAt t atTerminator ArgValue.atTerminator := by
  refine (followsAt_peek false).bind fun head _ _ => ?_
  cases head with
  | none => exact followsAt_pure true
  | some c => exact .lexicon_bind (.get_bind (followsAt_pure _))

theorem followsAt_terminated (v : ArgValue) :
    FollowsAt t (terminated v) (ArgValue.terminated v) :=
  followsAt_atTerminator.bind fun _ _ _ => (followsAt_pure v).ite (followsAt_fail _)

theorem followsAt_bareText : FollowsAt t bareText ArgValue.bareText :=
  (followsAt_call (agrees_unquoted stops) (Scan.steady_unquoted stops)).map _

theorem followsAt_range : FollowsAt t range (ArgValue.range <$> Scan.range) :=
  (followsAt_call agrees_range Scan.steady_range).map _

/-- A range, and a text that begins like a number, are read from where the number began. -/
theorem followsAt_numberOrText : FollowsAt t numberOrText ArgValue.numberOrText := by
  refine .cursor_bind (.get_bind ?_)
  -- from here on the cursor is behind `t`, where the readers after a rewind start again
  refine Follows.bind followsAt_number fun m n _ => ?_
  refine Follows.bind (followsAt_testAny _ _).from_advance fun dots n _ => ?_
  refine .ite (followsAt_range.rewind n) ?_
  refine Follows.bind followsAt_atTerminator.from_advance fun ends n _ => ?_
  refine .ite (FollowsAt.from_advance ?_) (followsAt_bareText.rewind n)
  cases m.integer <;> exact followsAt_pure _

theorem followsAt_boolOrText : FollowsAt t boolOrText ArgValue.boolOrText := by
  refine .cursor_bind (.get_bind ?_)
  refine Follows.bind (followsAt_call agrees_bool Scan.steady_bool) fun b n _ => ?_
  refine Follows.bind followsAt_atTerminator.from_advance fun ends n _ => ?_
  exact .ite (followsAt_pure _).from_advance (followsAt_bareText.rewind n)

theorem followsAt_numberOrZero : FollowsAt t numberOrZero Scan.numberOrZero :=
  followsAt_atNumber.bind fun _ _ _ =>
    .ite (followsAt_number.bind fun m _ _ => followsAt_pure m.value) (followsAt_pure 0)

theorem followsAt_relative : FollowsAt t relative ArgValue.relativeScan :=
  (followsAt_next false).bind fun _ _ _ =>
    followsAt_numberOrZero.bind fun _ _ _ => followsAt_terminated _

theorem followsAt_token : FollowsAt t token ArgValue.token :=
  (followsAt_testAny _ _).bind fun _ _ _ => .ite
    ((followsAt_call agrees_range Scan.steady_range).bind fun _ _ _ => followsAt_terminated _)
    (followsAt_atNumber.bind fun _ _ _ => .ite followsAt_numberOrText
      ((followsAt_testAny _ _).bind fun _ _ _ => .ite followsAt_boolOrText followsAt_bareText))

/-! ## Values in values -/

/-- `key=value` or `key=!value`. -/
def entry (stops : List Char) (value : Traced ArgValue) : Traced (Entry ArgValue) := do
  let key ← call (ByteScan.string stops)
  call (ByteScan.expect "=" true)
  let inverted ← call (ByteScan.accept "!" true)
  return ⟨key, inverted, ← value⟩

/-- Notes that the value starts inside the one that started there. -/
def within (around : Nat) (value : Traced ArgValue) : Traced ArgValue := do
  note (.nested around (← cursor))
  value

/-- A value that begins with `c`. -/
def valueFrom (nested : Traced ArgValue) (limit : Nat) (c : Char) : Traced ArgValue :=
  match c with
  | '{' => .map <$> bracketed "\x7b" "\x7d" (entry ['=', ',', '}'] nested) limit
  | '[' => .list <$> bracketed "[" "]" nested limit
  | '"' => .text <$> call ByteScan.quoted
  | '~' => relative
  | _ => token

def value : Nat → Traced ArgValue
  | 0 => throw .limit
  | limit + 1 => do
    let start ← cursor
    match ← call (ByteScan.peek true) with
    | none => call (ByteScan.fail "expected value")
    | some c => valueFrom (within start (value limit)) limit c

theorem followsFrom_entry {marks : List Char} {nested : Traced ArgValue} {nested' : Scan ArgValue}
    (hnested : FollowsFrom t nested nested') :
    FollowsFrom t (entry marks nested) (Entry.scan marks nested') :=
  FollowsFrom.bind (fun _ => followsAt_string marks) fun _ =>
    FollowsFrom.bind (fun _ => followsAt_expect "=" true) fun _ =>
      FollowsFrom.bind (fun _ => followsAt_accept "!" true) fun _ =>
        hnested.bind fun _ => followsFrom_pure _

theorem followsAt_valueFrom {nested : Traced ArgValue} {nested' : Scan ArgValue}
    (hnested : ∀ u, t.Before u → FollowsFrom u nested nested') (hlimit : t.rest.length ≤ limit)
    (c : Char) : FollowsAt t (valueFrom nested limit c) (scanFrom nested' c) := by
  unfold valueFrom
  split
  · refine FollowsAt.map (followsAt_bracketed (by decide) (fun u hu => ?_) hlimit) _
    exact followsFrom_entry (hnested u hu)
  · exact (followsAt_bracketed (by decide) hnested hlimit).map _
  · exact (followsAt_call agrees_quoted Scan.steady_quoted).map _
  · exact followsAt_relative
  · next hmap hlist hquoted hrelative =>
    have htoken := ArgValue.scanFrom_eq_token nested' (c := c)
      (by simpa using ⟨hmap, hlist, hquoted, hrelative⟩)
    exact followsAt_token.congr (congrFun htoken t)

/-- Inside a value less is left of the text than where it starts, so that a lower limit will
do. -/
theorem followsAt_value (hlimit : t.rest.length < limit) :
    FollowsAt t (value limit) ArgValue.scan := by
  induction limit generalizing t with
  | zero => cases hlimit
  | succ limit ih =>
    have hscan : ArgValue.scan t =
        ArgValue.scanWith (Scan.beyond t fun u _ => ArgValue.scan u) t := by
      rw [ArgValue.scan]
    refine Follows.congr (.cursor_bind ?_) (hscan.trans (congrFun (ArgValue.scanWith_eq _) t))
    refine (followsAt_peek true).bind fun head n _ => ?_
    cases head with
    | none => exact followsAt_fail _
    | some c =>
      have hle := t.length_rest_advance_le n
      refine followsAt_valueFrom (fun u hu m => ?_) (by omega) c
      have hbefore := hu.of_advance.advance m
      have hless := hbefore.length_lt
      exact .cursor_bind (.note_bind hbefore.forward (Follows.beyond (ih (by omega)) hbefore))

end CommandChain.Traced
