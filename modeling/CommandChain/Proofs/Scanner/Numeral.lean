import CommandChain.Proofs.Scanner.Reads
import CommandChain.Value.Printer

/-!
# Numbers read back

`Numeral.read` finds a valid number wherever one stands and the text does not go
on with it (`read_chars_append`), and finds nothing else (`valid_of_read`).
Integers are written as such numbers, and read back as themselves.
-/

namespace CommandChain

namespace Numeral

/-- The number is of the form that `read` finds. -/
structure Valid (n : Numeral) : Prop where
  sign : n.sign = none ∨ n.sign = some '-' ∨ n.sign = some '+'
  whole : ∀ c ∈ n.whole, c.isDigit
  fraction : ∀ digits, n.fraction = some digits → digits ≠ [] ∧ ∀ c ∈ digits, c.isDigit
  digits : n.whole ≠ [] ∨ n.fraction.isSome

/-- The text after the number is no part of it. -/
structure StopsAt (n : Numeral) (follow : List Char) : Prop where
  digit : ∀ c ∈ follow.head?, c.isDigit = false
  fraction : n.fraction = none → readFraction follow = none

theorem takeWhile_digits {digits follow : List Char} (h : ∀ c ∈ digits, c.isDigit)
    (hf : ∀ c ∈ follow.head?, c.isDigit = false) :
    (digits ++ follow).takeWhile Char.isDigit = digits := by
  rw [Scan.takeWhile_append_of_head hf, List.takeWhile_eq_self_iff.2 h]

theorem dropWhile_digits {digits follow : List Char} (h : ∀ c ∈ digits, c.isDigit)
    (hf : ∀ c ∈ follow.head?, c.isDigit = false) :
    (digits ++ follow).dropWhile Char.isDigit = follow := by
  rw [List.dropWhile_append_of_pos h]
  cases follow with
  | nil => rfl
  | cons c follow => exact List.dropWhile_cons_of_neg (by simp [hf c rfl])

/-- The point and the digits behind it. -/
def fractionChars : Option (List Char) → List Char
  | none => []
  | some digits => '.' :: digits

theorem chars_eq (n : Numeral) :
    n.chars = n.sign.toList ++ (n.whole ++ fractionChars n.fraction) := by
  unfold chars
  cases n.fraction <;> simp [fractionChars]

variable {n : Numeral} {follow s : List Char}

theorem readFraction_append (h : n.Valid) (hf : n.StopsAt follow) :
    readFraction (fractionChars n.fraction ++ follow) = n.fraction := by
  cases hn : n.fraction with
  | none => exact hf.fraction hn
  | some digits =>
    obtain ⟨hne, hd⟩ := h.fraction digits hn
    have ht := takeWhile_digits hd hf.digit
    simp only [fractionChars, List.cons_append, readFraction, ht]

theorem readSign_append (h : n.Valid) :
    readSign (n.chars ++ follow) = (n.sign, n.whole ++ (fractionChars n.fraction ++ follow)) := by
  rw [chars_eq, List.append_assoc, List.append_assoc]
  obtain ⟨sign, whole, fraction⟩ := n
  rcases h.sign with rfl | rfl | rfl
  · cases whole with
    | nil =>
      obtain ⟨digits, rfl⟩ := Option.isSome_iff_exists.1 (h.digits.resolve_left (fun hn => hn rfl))
      rfl
    | cons c whole =>
      have hc := h.whole c List.mem_cons_self
      simp only [Option.toList_none, List.nil_append, List.cons_append]
      unfold readSign
      split
      · next he => cases he; cases hc
      · next he => cases he; cases hc
      · rfl
  · rfl
  · rfl

/-- A number is found where the text does not go on with it. -/
theorem read_chars_append (h : n.Valid) (hf : n.StopsAt follow) :
    read (n.chars ++ follow) = some n := by
  have hhead : ∀ c ∈ (fractionChars n.fraction ++ follow).head?, c.isDigit = false := by
    cases hn : n.fraction with
    | none => exact hf.digit
    | some digits => intro c hc; cases hc; rfl
  have hfound : (n.whole.isEmpty && n.fraction.isNone) = false := by
    rcases h.digits with hw | hs
    · simp [hw]
    · rw [← Option.not_isSome, hs]; simp
  unfold read
  simp only [readSign_append h, takeWhile_digits h.whole hhead, dropWhile_digits h.whole hhead,
    readFraction_append h hf, hfound]
  rfl

theorem digits_takeWhile (s : List Char) : ∀ c ∈ s.takeWhile Char.isDigit, c.isDigit :=
  List.all_eq_true.1 List.all_takeWhile

theorem head_dropWhile (s : List Char) :
    ∀ c ∈ (s.dropWhile Char.isDigit).head?, c.isDigit = false := by
  intro c hc
  have h := List.head?_dropWhile_not Char.isDigit s
  rw [hc] at h
  simpa using h

theorem readFraction_some {digits : List Char} (h : readFraction s = some digits) :
    (digits ≠ [] ∧ ∀ c ∈ digits, c.isDigit) ∧
      ∃ rest, s = '.' :: (digits ++ rest) ∧ ∀ c ∈ rest.head?, c.isDigit = false := by
  unfold readFraction at h
  split at h
  · next rest =>
    split at h
    · cases h
    · next hne =>
      cases h
      refine ⟨⟨hne, digits_takeWhile rest⟩, rest.dropWhile Char.isDigit, ?_, head_dropWhile rest⟩
      rw [List.takeWhile_append_dropWhile]
  · cases h

theorem readSign_spec (s : List Char) :
    s = (readSign s).1.toList ++ (readSign s).2 ∧
      ((readSign s).1 = none ∨ (readSign s).1 = some '-' ∨ (readSign s).1 = some '+') := by
  unfold readSign
  split
  · exact ⟨rfl, .inr (.inl rfl)⟩
  · exact ⟨rfl, .inr (.inr rfl)⟩
  · exact ⟨rfl, .inl rfl⟩

/-- What is found is a number, and the text does not go on with it. -/
theorem valid_of_read (h : read s = some n) :
    n.Valid ∧ ∃ rest, s = n.chars ++ rest ∧ n.StopsAt rest := by
  obtain ⟨hs, hsign⟩ := readSign_spec s
  unfold read at h
  generalize readSign s = r at h hs hsign
  obtain ⟨sign, body⟩ := r
  simp only at h hs hsign
  generalize hf : readFraction (body.dropWhile Char.isDigit) = fraction at h
  have hbody : body.takeWhile Char.isDigit ++ body.dropWhile Char.isDigit = body :=
    List.takeWhile_append_dropWhile
  split at h
  · cases h
  · next hfound =>
    cases h
    have hdigits : body.takeWhile Char.isDigit ≠ [] ∨ fraction.isSome := by
      by_cases hw : body.takeWhile Char.isDigit = []
      · right
        simpa [hw, Option.isSome_iff_ne_none] using hfound
      · exact .inl hw
    rw [chars_eq]
    cases fraction with
    | none =>
      have hv : Valid ⟨sign, body.takeWhile Char.isDigit, none⟩ :=
        ⟨hsign, digits_takeWhile body, nofun, hdigits⟩
      refine ⟨hv, body.dropWhile Char.isDigit, ?_, head_dropWhile body, fun _ => hf⟩
      simp only [fractionChars, List.append_nil, List.append_assoc, hbody]
      exact hs
    | some digits =>
      obtain ⟨hd, rest, hrest, hhead⟩ := readFraction_some hf
      have hv : Valid ⟨sign, body.takeWhile Char.isDigit, some digits⟩ :=
        ⟨hsign, digits_takeWhile body, fun _ h => by cases h; exact hd, hdigits⟩
      refine ⟨hv, rest, ?_, hhead, nofun⟩
      simp only [fractionChars, List.append_assoc, List.cons_append]
      rw [← hrest, hbody]
      exact hs

theorem read_chars (h : n.Valid) : read n.chars = some n := by
  have hread : read (n.chars ++ []) = some n := read_chars_append h ⟨nofun, fun _ => rfl⟩
  rwa [List.append_nil] at hread

/-- A text is the text of one number at most. -/
theorem Valid.eq_of_chars {n' : Numeral} (h : n.Valid) (h' : n'.Valid) (heq : n.chars = n'.chars) :
    n = n' := by
  have hread := read_chars h
  rw [heq, read_chars h'] at hread
  exact (Option.some.inj hread).symm

/-! ## Integers -/

/-- An integer as it is written. -/
def ofInt (i : Int) : Numeral :=
  ⟨if i < 0 then some '-' else none, Nat.toDigits 10 i.natAbs, none⟩

theorem valid_ofInt (i : Int) : (ofInt i).Valid where
  sign := by unfold ofInt; split <;> simp
  whole _ hc := Nat.isDigit_of_mem_toDigits (by decide) (by decide) hc
  fraction _ h := by cases h
  digits := .inl Nat.toDigits_ne_nil

theorem toInt_ofInt (i : Int) : (ofInt i).toInt = i := by
  unfold toInt ofInt
  simp only [Nat.ofDigitChars_ten_toDigits]
  by_cases hi : i < 0
  · simp only [hi, if_true]
    omega
  · simp only [hi, if_false]
    simp only [reduceCtorEq, if_false]
    omega

theorem chars_ofInt (i : Int) : (ofInt i).chars = (toString i).toList := by
  rw [Int.toString_eq_repr, Int.repr_eq_if, chars_eq]
  unfold ofInt
  by_cases hi : i < 0
  · have habs : (-i).toNat = i.natAbs := by omega
    simp [hi, Int.not_le.2 hi, fractionChars, habs]
  · have habs : i.toNat = i.natAbs := by omega
    simp [hi, Int.not_lt.1 hi, fractionChars, habs]

/-- The number is read: it has a point, or it is an integer of 64 bits. -/
def Fits (n : Numeral) : Prop :=
  n.fraction = none → Int64.minValue.toInt ≤ n.toInt ∧ n.toInt ≤ Int64.maxValue.toInt

/-- The number is the integer `i`. -/
structure Writes (n : Numeral) (i : Int64) : Prop where
  valid : n.Valid
  integer : n.fraction = none
  value : n.toInt = i.toInt

theorem writes_ofInt (i : Int64) : (ofInt i.toInt).Writes i :=
  ⟨valid_ofInt i.toInt, rfl, toInt_ofInt i.toInt⟩

/-! ## Where numbers stop -/

/-- The text begins with no character of a number. -/
def Clear (follow : List Char) : Prop := ∀ c ∈ follow.head?, ArgValue.startsNumber c = false

theorem Clear.digit (h : Clear follow) : ∀ c ∈ follow.head?, c.isDigit = false := by
  intro c hc
  have hstart := h c hc
  simp only [ArgValue.startsNumber, Bool.or_eq_false_iff] at hstart
  exact hstart.1.1.1

theorem Clear.readFraction (h : Clear follow) : readFraction follow = none := by
  unfold Numeral.readFraction
  split
  · exact absurd (h '.' rfl) (by decide)
  · rfl

theorem Clear.stopsAt (h : Clear follow) (n : Numeral) : n.StopsAt follow :=
  ⟨h.digit, fun _ => h.readFraction⟩

theorem Clear.not_dots (h : Clear follow) : ¬ ['.', '.'] <+: follow := by
  rintro ⟨rest, rfl⟩
  exact absurd (h '.' rfl) (by decide)

theorem Clear.takeWhile_append (h : Clear follow) (s : List Char) :
    (s ++ follow).takeWhile Char.isDigit = s.takeWhile Char.isDigit :=
  Scan.takeWhile_append_of_head h.digit s

theorem Clear.dropWhile_append (h : Clear follow) (s : List Char) :
    (s ++ follow).dropWhile Char.isDigit = s.dropWhile Char.isDigit ++ follow := by
  induction s with
  | nil =>
    have hnil : ([] ++ follow).dropWhile Char.isDigit = follow := dropWhile_digits nofun h.digit
    exact hnil
  | cons c s ih =>
    simp only [List.cons_append, List.dropWhile_cons, ih]
    split <;> rfl

theorem Clear.readFraction_append (h : Clear follow) (s : List Char) :
    Numeral.readFraction (s ++ follow) = Numeral.readFraction s := by
  cases s with
  | nil => exact h.readFraction
  | cons c s =>
    by_cases hc : c = '.'
    · subst hc
      simp only [List.cons_append, Numeral.readFraction, h.takeWhile_append]
    · simp [Numeral.readFraction, hc]

theorem Clear.readSign_append (h : Clear follow) (s : List Char) :
    readSign (s ++ follow) = ((readSign s).1, (readSign s).2 ++ follow) := by
  unfold readSign
  cases s with
  | nil =>
    have hsign : ∀ c ∈ follow.head?, c ≠ '-' ∧ c ≠ '+' := by
      intro c hc
      have hstart := h c hc
      constructor <;> rintro rfl <;> cases hstart
    rw [List.nil_append]
    split
    · exact absurd rfl (hsign _ rfl).1
    · exact absurd rfl (hsign _ rfl).2
    · rfl
  | cons c s =>
    rw [List.cons_append]
    split <;> simp_all

/-- A text that begins with no character of a number adds nothing to the number before it. -/
theorem Clear.read_append (h : Clear follow) (s : List Char) :
    Numeral.read (s ++ follow) = Numeral.read s := by
  simp only [Numeral.read, h.readSign_append, h.takeWhile_append, h.dropWhile_append,
    h.readFraction_append]

/-- The dots of a range are no part of its first number. -/
theorem stopsAt_dots (n : Numeral) (rest : List Char) :
    n.StopsAt ('.' :: '.' :: rest) :=
  ⟨fun c hc => by cases hc; rfl, fun _ => by simp [Numeral.readFraction]⟩

theorem Valid.head (h : n.Valid) :
    ∃ c rest, n.chars = c :: rest ∧ ArgValue.startsNumber c := by
  rw [chars_eq]
  obtain ⟨sign, whole, fraction⟩ := n
  rcases h.sign with rfl | rfl | rfl
  · cases whole with
    | nil =>
      obtain ⟨digits, rfl⟩ := Option.isSome_iff_exists.1 (h.digits.resolve_left (fun hn => hn rfl))
      exact ⟨'.', digits, rfl, rfl⟩
    | cons c whole =>
      have hdigit := h.whole c List.mem_cons_self
      exact ⟨c, _, rfl, by simp [ArgValue.startsNumber, hdigit]⟩
  · exact ⟨'-', _, rfl, rfl⟩
  · exact ⟨'+', _, rfl, rfl⟩

/-- The characters of a number. -/
theorem Valid.startsNumber (h : n.Valid) : ∀ c ∈ n.chars, ArgValue.startsNumber c := by
  have hdigit (c : Char) (hc : c.isDigit) : ArgValue.startsNumber c := by
    simp [ArgValue.startsNumber, hc]
  rw [chars_eq]
  refine List.forall_mem_append.2 ⟨?_, List.forall_mem_append.2 ⟨?_, ?_⟩⟩
  · rcases h.sign with hs | hs | hs <;> simp [hs, ArgValue.startsNumber]
  · exact fun c hc => hdigit c (h.whole c hc)
  · cases hfraction : n.fraction with
    | none => nofun
    | some digits =>
      exact List.forall_mem_cons.2
        ⟨rfl, fun c hc => hdigit c ((h.fraction digits hfraction).2 c hc)⟩

/-- No number begins with two dots. -/
theorem Valid.not_dots (h : n.Valid) (follow : List Char) :
    ¬ ['.', '.'] <+: n.chars ++ follow := by
  rw [chars_eq]
  obtain ⟨sign, whole, fraction⟩ := n
  rcases h.sign with rfl | rfl | rfl
  · cases whole with
    | nil =>
      obtain ⟨digits, rfl⟩ := Option.isSome_iff_exists.1 (h.digits.resolve_left (fun hn => hn rfl))
      obtain ⟨hne, hd⟩ := h.fraction digits rfl
      cases digits with
      | nil => exact absurd rfl hne
      | cons d digits =>
        have hdigit := hd d List.mem_cons_self
        simp only [fractionChars, Option.toList_none, List.nil_append, List.cons_append,
          List.cons_prefix_cons]
        rintro ⟨_, rfl, _⟩
        cases hdigit
    | cons c whole =>
      have hdigit := h.whole c List.mem_cons_self
      simp only [Option.toList_none, List.nil_append, List.cons_append, List.cons_prefix_cons]
      rintro ⟨rfl, _⟩
      cases hdigit
  · simp [List.cons_prefix_cons]
  · simp [List.cons_prefix_cons]

theorem Clear.read (h : Clear follow) : read follow = none := by
  cases hr : Numeral.read follow with
  | none => rfl
  | some n =>
    obtain ⟨hv, rest, rfl, _⟩ := valid_of_read hr
    obtain ⟨c, more, hchars, hc⟩ := hv.head
    rw [hchars] at h
    exact absurd hc (by rw [h c rfl]; exact Bool.false_ne_true)

end Numeral

namespace Scan

variable {lexicon : Lexicon} {n : Numeral} {text follow : List Char} {i : Int64}

theorem reads_atNumber : Reads lexicon atNumber [] follow (Numeral.read follow).isSome := by
  intro t _ ht
  rw [List.length_nil, Scanner.advance_zero]
  exact congrArg (fun rest => EStateM.Result.ok (Numeral.read rest).isSome t) ht

/-- The number a numeral stands for; an integer has to fit. -/
def numberOf (n : Numeral) : Option Number :=
  if n.fraction.isSome then some ⟨n.toFloat, none⟩
  else if Int64.maxValue.toInt < n.toInt then none
  else if n.toInt < Int64.minValue.toInt then none
  else some ⟨n.toFloat, some (.ofInt n.toInt)⟩

theorem number_eq_ok_iff {t t' : Scanner} {m : Number} : number t = .ok m t' ↔
    ∃ n, Numeral.read t.rest = some n ∧ numberOf n = some m ∧ t' = t.advance n.chars.length := by
  unfold number numberOf
  cases Numeral.read t.rest with
  | none => simp [fail]
  | some n =>
    simp only [Option.some.injEq, exists_eq_left']
    split
    · simp [eq_comm]
    · split
      · simp [fail]
      · split
        · simp [fail]
        · simp [eq_comm]

/-- A number has a point, or is an integer of 64 bits. -/
theorem exists_numberOf_iff : (∃ m, numberOf n = some m) ↔ n.Fits := by
  unfold numberOf Numeral.Fits
  cases n.fraction with
  | some digits => simp
  | none =>
    simp only [Option.isSome_none, Bool.false_eq_true, if_false, true_imp_iff]
    split
    · next hmax => exact iff_of_false (by simp) fun h => Int.not_le.2 hmax h.2
    · next hmax =>
      split
      · next hmin => exact iff_of_false (by simp) fun h => Int.not_le.2 hmin h.1
      · next hmin => exact iff_of_true ⟨_, rfl⟩ ⟨Int.not_lt.1 hmin, Int.not_lt.1 hmax⟩

theorem numberOf_some {m : Number} (h : numberOf n = some m) :
    m.value = n.toFloat ∧ m.integer.isSome = n.fraction.isNone := by
  unfold numberOf at h
  cases hn : n.fraction with
  | some digits => rw [hn] at h; cases h; exact ⟨rfl, rfl⟩
  | none =>
    rw [hn] at h
    simp only [Option.isSome_none, Bool.false_eq_true, if_false] at h
    split at h
    · cases h
    · split at h
      · cases h
      · cases h
        exact ⟨rfl, rfl⟩

/-- A number that is read is read anywhere, where the text does not go on with it. -/
theorem number_ok {t t' : Scanner} {m : Number} (h : number t = .ok m t') :
    ∃ n : Numeral, ∃ rest, n.Valid ∧ t.rest = n.chars ++ rest ∧ t' = t.advance n.chars.length ∧
      numberOf n = some m := by
  obtain ⟨n, hread, hvalue, ht'⟩ := number_eq_ok_iff.1 h
  obtain ⟨hvalid, rest, hrest, _⟩ := Numeral.valid_of_read hread
  exact ⟨n, rest, hvalid, hrest, ht', hvalue⟩

/-- A number is read where the text does not go on with it. -/
theorem reads_number {m : Number} (hn : n.Valid) (hm : numberOf n = some m)
    (hf : n.StopsAt follow) : Reads lexicon number n.chars follow m := by
  intro t _ ht
  refine number_eq_ok_iff.2 ⟨n, ?_, hm, rfl⟩
  rw [ht, Numeral.read_chars_append hn hf]

theorem reads_numberOrZero_numeral {m : Number} (hn : n.Valid) (hm : numberOf n = some m)
    (hf : n.StopsAt follow) : Reads lexicon numberOrZero n.chars follow m.value := by
  refine Reads.bind_nil reads_atNumber ?_
  rw [Numeral.read_chars_append hn hf]
  exact (reads_number hn hm hf).bind_pure (reads_pure _)

theorem reads_numberOrZero_nil (hf : Numeral.Clear follow) :
    Reads lexicon numberOrZero [] follow 0 := by
  refine Reads.bind_nil reads_atNumber ?_
  rw [List.nil_append, hf.read]
  exact reads_pure 0

/-- Where no number stands nothing is read, and else the number is read. -/
theorem numberOrZero_ok {t t' : Scanner} {x : Float} (h : numberOrZero t = .ok x t') :
    (x = 0 ∧ t' = t) ∨ ∃ m, number t = .ok m t' ∧ x = m.value := by
  obtain ⟨found, t₁, hfound, hx⟩ := bind_eq_ok_iff.1 h
  cases hfound
  cases hr : Numeral.read t.rest with
  | none =>
    rw [hr] at hx
    cases hx
    exact .inl ⟨rfl, rfl⟩
  | some n =>
    rw [hr] at hx
    obtain ⟨m, t₂, hm, hx₂⟩ := bind_eq_ok_iff.1 hx
    cases hx₂
    exact .inr ⟨m, hm, rfl⟩

theorem numberOf_of_fits (hinteger : n.fraction = none) (h : n.Fits) :
    numberOf n = some ⟨n.toFloat, some (.ofInt n.toInt)⟩ := by
  obtain ⟨hlow, hhigh⟩ := h hinteger
  unfold numberOf
  rw [hinteger, Option.isSome_none]
  rw [if_neg Bool.false_ne_true, if_neg (Int.not_lt.2 hhigh), if_neg (Int.not_lt.2 hlow)]

theorem numberOf_of_writes (h : n.Writes i) : numberOf n = some ⟨n.toFloat, some i⟩ := by
  have hfits : n.Fits := fun _ => by
    rw [h.value]
    exact ⟨i.minValue_le_toInt, i.toInt_le⟩
  rw [numberOf_of_fits h.integer hfits, h.value, Int64.ofInt_toInt]

theorem writes_of_numberOf {m : Number} (hn : n.Valid) (hm : numberOf n = some m)
    (hi : m.integer = some i) : n.Writes i := by
  have hinteger : n.fraction = none := by
    rw [← Option.isNone_iff_eq_none, ← (numberOf_some hm).2, hi]
    rfl
  have hfits : n.Fits := exists_numberOf_iff.1 ⟨m, hm⟩
  obtain ⟨hlow, hhigh⟩ := hfits hinteger
  rw [numberOf_of_fits hinteger hfits] at hm
  cases hm
  cases hi
  exact ⟨hn, hinteger, (Int64.toInt_ofInt_of_le hlow (Int.lt_add_one_of_le hhigh)).symm⟩

/-- An integer is read where the text does not go on with it. -/
theorem reads_int_of_writes (h : n.Writes i) (hf : n.StopsAt follow) :
    Reads lexicon int n.chars follow i := by
  intro t hl ht
  have hnumber : Reads lexicon number n.chars follow ⟨n.toFloat, some i⟩ :=
    reads_number h.valid (numberOf_of_writes h) hf
  simp only [int, hnumber t hl ht]

theorem int_ok {t t' : Scanner} (h : int t = .ok i t') :
    ∃ n : Numeral, n.Writes i ∧ t.Passes n.chars t' := by
  unfold int at h
  cases hnumber : number t with
  | error e t₁ =>
    rw [hnumber] at h
    cases h
  | ok m t₁ =>
    obtain ⟨n, rest, hvalid, hrest, rfl, hm⟩ := number_ok hnumber
    rw [hnumber] at h
    cases hi : m.integer with
    | none =>
      simp only [hi] at h
      cases h
    | some j =>
      simp only [hi] at h
      cases h
      exact ⟨n, writes_of_numberOf hvalid hm hi, ⟨rest, hrest.symm⟩, rfl⟩

theorem reads_number_of_int (h : (Numeral.ofInt i.toInt).StopsAt follow) :
    Reads lexicon number (toString i).toList follow ⟨(Numeral.ofInt i.toInt).toFloat, some i⟩ := by
  have hread : Reads lexicon number (Numeral.ofInt i.toInt).chars follow _ :=
    reads_number (Numeral.valid_ofInt i.toInt) (numberOf_of_writes (Numeral.writes_ofInt i)) h
  rwa [Numeral.chars_ofInt] at hread

theorem reads_int (h : (Numeral.ofInt i.toInt).StopsAt follow) :
    Reads lexicon int (toString i).toList follow i := by
  have hread : Reads lexicon int (Numeral.ofInt i.toInt).chars follow i :=
    reads_int_of_writes (Numeral.writes_ofInt i) h
  rwa [Numeral.chars_ofInt] at hread

theorem head_int (i : Int64) :
    ∃ c rest, (toString i).toList = c :: rest ∧ ArgValue.startsNumber c := by
  have hchars : (toString i).toList = (Numeral.ofInt i.toInt).chars :=
    (Numeral.chars_ofInt i.toInt).symm
  rw [hchars]
  exact (Numeral.valid_ofInt i.toInt).head

/-- No dots stand where a number does. -/
theorem longest_dots_number (hn : n.Valid) (rest : List Char) :
    longest [".."] (n.chars ++ rest) = none := by
  rw [longest_singleton (by decide), if_neg]
  exact fun hp => hn.not_dots rest (List.isPrefixOf_iff_prefix.1 hp)

theorem longest_dots_int (i : Int64) (rest : List Char) :
    longest [".."] ((toString i).toList ++ rest) = none := by
  have hchars : (toString i).toList = (Numeral.ofInt i.toInt).chars :=
    (Numeral.chars_ofInt i.toInt).symm
  rw [hchars]
  exact longest_dots_number (Numeral.valid_ofInt i.toInt) rest

end Scan

end CommandChain
