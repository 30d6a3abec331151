import CommandChain.Proofs.Selector.Prefix
import CommandChain.Proofs.Value.Progress

/-!
# Progress of selectors

The limited reader of selectors follows `Selector.scan` wherever no more is left of the text
than the limit allows for. So any limit beyond the length of a text is the same as none
(`selector_progresses`): no text, well formed or not, makes the reader go round without end, and
`Selector.scan` is never refused for want of progress.
-/

namespace CommandChain.Traced

open Selector (build isTypeChar ofName scan scanArguments scanTyped)

variable {registry : SelectorRegistry} {t : Scanner} {limit : Nat}

/-- Fails with a selector fault. -/
def faulty (fault : SelectorFault) : Traced Selector :=
  throw (.halt (.error ⟨.selector fault, none⟩))

/-- The arguments in their brackets. -/
def arguments (limit : Nat) : Traced (List (Entry ArgValue)) := do
  call (ByteScan.expect "[" false)
  itemsThrough (entry ['=', ',', ']'] (value limit)) "]" limit

/-- The arguments, if a bracket stands at the cursor. -/
def written (limit : Nat) : Traced (List (Entry ArgValue)) := do
  if (← call (ByteScan.peek false)) == some '[' then arguments limit else return []

/-- The form with `@`, with the cursor at it. -/
def typed (registry : SelectorRegistry) (limit : Nat) : Traced Selector := do
  let _ ← call (ByteScan.next false)
  let name ← call (ByteScan.takeWhile isTypeChar)
  match registry.type? name with
  | none => faulty (.unknownType name)
  | some type =>
    let written ← written limit
    match build registry type written with
    | .ok selector => return selector
    | .error fault => faulty fault

/-- One selector; the text after it is left unread. -/
def selector (registry : SelectorRegistry) (limit : Nat) : Traced Selector := do
  match ← call (ByteScan.peek true) with
  | none => call (ByteScan.fail "expected selector")
  | some c => if c = '@' then typed registry limit else ofName <$> call (ByteScan.string [])

theorem followsAt_faulty (fault : SelectorFault) :
    FollowsAt t (faulty fault) (Selector.faulty fault) :=
  ⟨⟨0, t.advance_zero.symm⟩, [], nofun, fun log => by rw [List.append_nil]; rfl⟩

/-- The bracket that is passed is the one at the cursor. -/
theorem scanArguments_eq (t : Scanner) :
    scanArguments t = (do
      if (← Scan.peek false) == some '[' then
        Scan.expect "[" false
        Scan.itemsThrough (Entry.scan ['=', ',', ']'] ArgValue.scan) "]"
      else return [] : Scan (List (Entry ArgValue))) t := by
  have hpeek : Scan.peek false t = .ok t.rest.head? t := rfl
  unfold scanArguments
  rw [bind_of_ok hpeek, bind_of_ok hpeek]
  split
  · next hbracket =>
    obtain ⟨rest, hrest⟩ := List.head?_eq_some_iff.1 (beq_iff_eq.1 hbracket)
    have haccept : Scan.accept "[" false t = .ok true (t.advance 1) := by
      have hsettled : t.settled false = t := rfl
      rw [Scan.accept_eq (by decide), hsettled, hrest]
      rfl
    have hexpect : Scan.expect "[" false t = .ok () (t.advance 1) := bind_of_ok haccept
    rw [bind_of_ok (Scan.next_eq t), bind_of_ok hexpect]
  · rfl

theorem followsAt_arguments (hlimit : t.rest.length < limit) :
    FollowsAt t (arguments limit) (Scan.expect "[" false >>= fun _ =>
      Scan.itemsThrough (Entry.scan ['=', ',', ']'] ArgValue.scan) "]") := by
  refine (followsAt_expect "[" false).bind fun _ n _ => ?_
  have hle := t.length_rest_advance_le n
  refine followsAt_itemsThrough (followsFrom_entry fun m => followsAt_value ?_) (by omega)
  exact ((t.advance n).length_rest_advance_le m).trans_lt (by omega)

theorem followsAt_written (hlimit : t.rest.length < limit) :
    FollowsAt t (written limit) scanArguments := by
  refine Follows.congr ?_ (scanArguments_eq t)
  refine (followsAt_peek false).bind fun _ n _ => ?_
  have hle := t.length_rest_advance_le n
  exact .ite (followsAt_arguments (by omega)) (followsAt_pure [])

theorem followsAt_typed (hlimit : t.rest.length < limit) :
    FollowsAt t (typed registry limit) (scanTyped registry) := by
  refine (followsAt_next false).bind fun _ n _ => ?_
  refine (followsAt_call (agrees_takeWhile _) (Scan.steady_takeWhile _)).bind fun name m _ => ?_
  cases registry.type? name with
  | none => exact followsAt_faulty _
  | some type =>
    have hle := t.length_rest_advance_le n
    have hle' := (t.advance n).length_rest_advance_le m
    refine (followsAt_written (by omega)).bind fun written _ _ => ?_
    cases build registry type written with
    | ok s => exact followsAt_pure s
    | error fault => exact followsAt_faulty fault

theorem followsAt_selector (hlimit : t.rest.length < limit) :
    FollowsAt t (selector registry limit) (scan registry) := by
  rw [Selector.scan_eq]
  refine (followsAt_peek true).bind fun head n _ => ?_
  cases head with
  | none => exact followsAt_fail _
  | some c =>
    have hle := t.length_rest_advance_le n
    refine .ite (followsAt_typed (by omega)) ?_
    exact (followsAt_string []).map ofName

/-- Under any limit beyond the length of a text the reader ends as if there were none. The rounds
of a loop start further and further on, a value inside another one starts further on than that
one, and the cursor is never past the end. -/
theorem selector_progresses (registry : SelectorRegistry) (text : String) (extra : Nat) :
    ∃ events : List ScanEvent, (∀ e ∈ events, e.Forward text.utf8ByteSize) ∧
      selector registry (text.length + 1 + extra) (⟨ArgValue.lexicon, text.toList, 0⟩, []) =
        traced events (scan registry (.ofText ArgValue.lexicon text)) ∧
      (stateLeft (scan registry (.ofText ArgValue.lexicon text))).position ≤
        text.utf8ByteSize := by
  let t := Scanner.ofText ArgValue.lexicon text
  have hlength : t.rest.length = text.length := String.length_toList
  have hlimit : t.rest.length < text.length + 1 + extra := by omega
  have hfollows : FollowsAt t (selector registry (text.length + 1 + extra)) (scan registry) :=
    followsAt_selector hlimit
  obtain ⟨⟨n, hn⟩, events, hevents, hselector⟩ := hfollows
  rw [Text.utf8ByteSize_eq]
  refine ⟨events, hevents, hselector [], ?_⟩
  have hposition := (t.advance n).position_le_source
  rw [t.source_advance] at hposition
  rw [hn]
  exact hposition

/-- The text ends where the second argument goes on. -/
example :
    let s := stateLeft (selector .standard 18
      (⟨ArgValue.lexicon, "@e[a={b=[x, y]},c".toList, 0⟩, []))
    s.1.position = 17 ∧ s.2.filter (fun event => event matches .round .. | .nested ..) =
      [.nested 5 8, .nested 8 9, .round 9 11, .nested 8 11, .round 3 16] := by
  decide +kernel

end CommandChain.Traced
