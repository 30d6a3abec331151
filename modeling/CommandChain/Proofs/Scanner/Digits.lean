import CommandChain.Proofs.Scanner.Agreement

/-!
# Numbers by bytes

A number is read by bytes in steps of one: over a sign, digits, and a point with a digit
behind it. All of these are single bytes, so each step passes one character, and the steps
end where the numeral at the cursor does (`digits_bytes`). With `agrees_number` the readers of
integers and of ranges agree as well.
-/

namespace CommandChain

section

variable {t : Scanner} {n : Numeral} {follow : List Char}

theorem isSome_readFraction (s : List Char) :
    (Numeral.readFraction ('.' :: s)).isSome = s.head?.any Char.isDigit := by
  cases s with
  | nil => rfl
  | cons c s => cases hc : c.isDigit <;> simp [Numeral.readFraction, hc]

theorem readFraction_of_ne_point {c : Char} (hc : c ≠ '.') (s : List Char) :
    Numeral.readFraction (c :: s) = none := by
  unfold Numeral.readFraction
  split
  · next h => exact absurd (List.cons.inj h).1 hc
  · rfl

/-- A number is found where it begins. -/
theorem beginsNumber_eq (s : List Char) :
    ByteScan.beginsNumber s = (Numeral.read s).isSome := by
  unfold ByteScan.beginsNumber Numeral.read
  obtain ⟨sign, body⟩ := Numeral.readSign s
  cases body with
  | nil => rfl
  | cons c body =>
    cases hc : c.isDigit with
    | true => simp [hc]
    | false =>
      by_cases hpoint : c = '.'
      · subst hpoint
        cases hfraction : Numeral.readFraction ('.' :: body) with
        | none => simp [hc, ← isSome_readFraction, hfraction]
        | some digits => simp [hc, ← isSome_readFraction, hfraction]
      · simp [hc, hpoint, readFraction_of_ne_point hpoint]

theorem agrees_atNumber : Agrees ByteScan.atNumber Scan.atNumber := by
  intro t
  unfold ByteScan.atNumber
  rw [bind_of_ok (rest_bytes t), beginsNumber_eq]
  rfl

/-! ## Digits -/

/-- The loop passes digits. -/
theorem digitsLoop_digits (hasPoint : Bool) {digits : List Char} (hdigits : ∀ c ∈ digits, c.isDigit)
    (h : t.rest = digits ++ follow) :
    ByteScan.digitsLoop hasPoint t.bytes =
      ByteScan.digitsLoop hasPoint (t.advance digits.length).bytes := by
  induction digits generalizing t with
  | nil => rw [List.length_nil, t.advance_zero]
  | cons c digits ih =>
    obtain ⟨hc, hdigits⟩ := List.forall_mem_cons.1 hdigits
    have hrest : t.rest = c :: (digits ++ follow) := h
    have hone : (t.advance 1).rest = digits ++ follow := by rw [Scanner.rest_advance, h]; rfl
    have hbytes := Scanner.bytes_advance_one hrest
    rw [Text.utf8Size_of_isDigit hc] at hbytes
    rw [ByteScan.digitsLoop, t.split?_of_rest hrest]
    dsimp only
    rw [if_pos hc, ← hbytes, ih hdigits hone, Scanner.advance_advance, List.length_cons,
      Nat.add_comm]

theorem splitAt?_point (s : List Char) : Text.splitAt? ('.' :: s) 1 = some (['.'], s) :=
  Text.splitAt?_eq_some_iff.2 ⟨rfl, rfl⟩

/-- The loop ends before anything but a digit or a fraction that may still come. -/
theorem digitsLoop_stop (hasPoint : Bool) (hdigit : ∀ c ∈ t.rest.head?, c.isDigit = false)
    (hpoint : hasPoint = false → Numeral.readFraction t.rest = none) :
    ByteScan.digitsLoop hasPoint t.bytes = .ok hasPoint t.bytes := by
  rw [ByteScan.digitsLoop]
  cases hrest : t.rest with
  | nil => rw [t.split?_of_rest hrest]
  | cons c rest =>
    rw [hrest] at hdigit hpoint
    have hc : ¬ c.isDigit := by simp [hdigit c rfl]
    rw [t.split?_of_rest hrest]
    dsimp only
    rw [if_neg hc]
    split
    · next h =>
      obtain ⟨rfl, hnone⟩ := h
      have hfraction : rest.head?.any Char.isDigit = false := by
        rw [← isSome_readFraction, hpoint hnone]
        rfl
      rw [splitAt?_point]
      dsimp only
      rw [hfraction]
      rfl
    · rfl

/-- The loop passes the point of a fraction. -/
theorem digitsLoop_point {digits : List Char} (hne : digits ≠ [])
    (hdigits : ∀ c ∈ digits, c.isDigit) (h : t.rest = '.' :: (digits ++ follow)) :
    ByteScan.digitsLoop false t.bytes = ByteScan.digitsLoop true (t.advance 1).bytes := by
  have hfraction : (digits ++ follow).head?.any Char.isDigit = true := by
    obtain ⟨c, digits, rfl⟩ := List.exists_cons_of_ne_nil hne
    exact hdigits c List.mem_cons_self
  have hbytes := Scanner.bytes_advance_one h
  rw [ByteScan.digitsLoop, t.split?_of_rest h]
  dsimp only
  rw [if_neg (by decide), if_pos ⟨rfl, rfl⟩, splitAt?_point]
  dsimp only
  rw [if_pos hfraction, hbytes]
  rfl

/-- The loop passes a number behind its sign. -/
theorem digits_bytes (hn : n.Valid) (hf : n.StopsAt follow)
    (h : t.rest = n.whole ++ (Numeral.fractionChars n.fraction ++ follow)) :
    ByteScan.digits t.bytes = .ok n.fraction.isSome
      (t.advance (n.whole ++ Numeral.fractionChars n.fraction).length).bytes := by
  unfold ByteScan.digits
  rw [digitsLoop_digits false hn.whole h, List.length_append, ← Scanner.advance_advance]
  have hrest := Scanner.rest_advance_of_append h
  generalize t.advance n.whole.length = t at hrest
  cases hfraction : n.fraction with
  | none =>
    rw [hfraction] at hrest
    have hfollow : t.rest = follow := hrest
    rw [digitsLoop_stop false (hfollow ▸ hf.digit) fun _ => hfollow ▸ hf.fraction hfraction]
    exact congrArg (EStateM.Result.ok false ·.bytes) t.advance_zero.symm
  | some digits =>
    rw [hfraction] at hrest
    obtain ⟨hne, hdigits⟩ := hn.fraction digits hfraction
    have hone : (t.advance 1).rest = digits ++ follow := by rw [Scanner.rest_advance, hrest]; rfl
    have hbehind := Scanner.rest_advance_of_append hone
    rw [digitsLoop_point hne hdigits hrest, digitsLoop_digits true hdigits hone,
      digitsLoop_stop true (hbehind ▸ hf.digit) nofun, Scanner.advance_advance, Nat.add_comm]
    rfl

/-! ## Numbers -/

theorem readSign_of_ne {c : Char} (hminus : c ≠ '-') (hplus : c ≠ '+') (s : List Char) :
    Numeral.readSign (c :: s) = (none, c :: s) := by
  unfold Numeral.readSign
  split
  · next h => exact absurd (List.cons.inj h).1 hminus
  · next h => exact absurd (List.cons.inj h).1 hplus
  · rfl

theorem passSign_bytes (t : Scanner) :
    ByteScan.passSign t.bytes =
      .ok () (t.advance (Numeral.readSign t.rest).1.toList.length).bytes := by
  have hpeek : ByteScan.peek false t.bytes = .ok t.rest.head? t.bytes := peek_bytes false t
  unfold ByteScan.passSign
  rw [bind_of_ok hpeek]
  cases hrest : t.rest with
  | nil => exact congrArg (EStateM.Result.ok () ·.bytes) t.advance_zero.symm
  | cons c rest =>
    have hmove (hc : c.utf8Size = 1) : ByteScan.move 1 t.bytes = .ok () (t.advance 1).bytes := by
      rw [Scanner.bytes_advance_one hrest, hc]
      rfl
    by_cases hminus : c = '-'
    · subst hminus
      exact hmove rfl
    by_cases hplus : c = '+'
    · subst hplus
      exact hmove rfl
    · have hno : ((c :: rest).head?.any fun c => c = '-' || c = '+') = false := by
        simp [hminus, hplus]
      rw [hno, readSign_of_ne hminus hplus, Option.toList_none, List.length_nil, t.advance_zero]
      rfl

/-- The value of a number is that of its own text. -/
theorem toNumber_bytes (hn : n.Valid) (t : Scanner) :
    ByteScan.toNumber n.chars n.fraction.isSome t.bytes =
      mapError Halt.error (mapState Scanner.bytes
        (if n.fraction.isSome then .ok ⟨n.toFloat, none⟩ t
          else if Int64.maxValue.toInt < n.toInt then
            Scan.fail ("invalid integer `" ++ String.ofList n.chars ++ "`: " ++
              "number too large to fit in target type") t
          else if n.toInt < Int64.minValue.toInt then
            Scan.fail ("invalid integer `" ++ String.ofList n.chars ++ "`: " ++
              "number too small to fit in target type") t
          else .ok ⟨n.toFloat, some (.ofInt n.toInt)⟩ t)) := by
  unfold ByteScan.toNumber
  rw [Numeral.read_chars hn]
  dsimp only
  split
  · rfl
  · split
    · exact fail_bytes _ t
    · split
      · exact fail_bytes _ t
      · rfl

theorem agrees_number : Agrees ByteScan.number Scan.number := by
  intro t
  have hbegins := agrees_atNumber t
  unfold ByteScan.number Scan.number
  rw [bind_of_ok hbegins]
  cases hread : Numeral.read t.rest with
  | none => exact fail_bytes _ t
  | some n =>
    obtain ⟨hn, follow, hrest, hf⟩ := Numeral.valid_of_read hread
    have hsign := passSign_bytes t
    rw [hrest, Numeral.readSign_append hn] at hsign
    have hbehind : (t.advance n.sign.toList.length).rest =
        n.whole ++ (Numeral.fractionChars n.fraction ++ follow) :=
      Scanner.rest_advance_of_append (by rw [hrest, Numeral.chars_eq]; simp)
    have hdigits := digits_bytes hn hf hbehind
    rw [Scanner.advance_advance, ← List.length_append, ← Numeral.chars_eq] at hdigits
    have hslice := since?_bytes t n.chars.length
    have htake : t.rest.take n.chars.length = n.chars := by rw [hrest, List.take_left]
    rw [htake] at hslice
    dsimp only
    refine (bind_of_ok (position_bytes t)).trans ?_
    refine (bind_of_ok hsign).trans ?_
    refine (bind_of_ok hdigits).trans ?_
    refine (bind_of_ok hslice).trans ?_
    exact toNumber_bytes hn _

theorem agrees_int : Agrees ByteScan.int Scan.int := by
  intro t
  have hnumber := agrees_number t
  unfold ByteScan.int Scan.int
  rw [bind_of_ok (position_bytes t)]
  cases hn : Scan.number t with
  | error e t' =>
    rw [hn] at hnumber
    exact bind_of_error hnumber
  | ok n t' =>
    rw [hn] at hnumber
    refine (bind_of_ok hnumber).trans ?_
    obtain ⟨value, integer⟩ := n
    cases integer with
    | some i => rfl
    | none =>
      obtain ⟨m, -, -, rfl⟩ := Scan.number_eq_ok_iff.1 hn
      dsimp only
      rw [bind_of_ok (rewind_bytes t _)]
      exact fail_bytes _ t

/-- What is read behind the lower bound of a range. -/
def Scan.upper (min : Option Int64) : Scan IntRange := do
  if ← accept ".." false then
    let max ← if ← atNumber then some <$> int else pure none
    if min.isNone && max.isNone then fail "range needs at least one bound"
    else return ⟨min, max⟩
  else return ⟨min, min⟩

theorem agrees_upper (min : Option Int64) : Agrees (ByteScan.upper min) (Scan.upper min) := by
  refine (agrees_accept ".." false).bind fun dots => ?_
  cases dots with
  | false => exact agrees_pure _
  | true =>
    refine agrees_atNumber.bind fun found => ?_
    cases found with
    | true => exact (agrees_int.map some).bind fun _ => (agrees_fail _).bool (agrees_pure _)
    | false => exact (agrees_pure none).bind fun _ => (agrees_fail _).bool (agrees_pure _)

theorem agrees_range : Agrees ByteScan.range Scan.range := by
  refine (agrees_testAny [".."] false).bind fun found => ?_
  cases found with
  | some dots => exact (agrees_pure none).bind agrees_upper
  | none => exact (agrees_int.map some).bind agrees_upper

end

end CommandChain
