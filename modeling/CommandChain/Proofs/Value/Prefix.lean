import CommandChain.Proofs.Scanner.Extension
import CommandChain.Proofs.Value.Leaf
import CommandChain.Proofs.Value.Scanned

/-!
# Values in longer texts

What is read as a value is read as the same value if a further text follows behind a blank
(`extends_scan`). Numbers and booleans that turn out to be text are read again from where they
began, which is the same place in the longer text.
-/

namespace CommandChain.ArgValue

open Scan

/-- The number as a value. -/
def numberValue (m : Number) : Scan ArgValue :=
  match m.integer with
  | some n => pure (int n)
  | none => pure (float m.value)

/-- The meaning of a word for true or false. -/
def boolWord : Scan Bool :=
  consumeAny ["true", "false"] false >>= fun found =>
    match found with
    | some word => pure (lexicon.trueWords.contains word)
    | none => fail "expected boolean"

theorem bool_eq {t : Scanner} (hl : t.lexicon = lexicon) : Scan.bool t = boolWord t := by
  have hget : (get : Scan Scanner) t = .ok t t := rfl
  unfold Scan.bool
  rw [bind_of_ok hget, hl]
  rfl

section

variable {u : List Char} (hu : lexicon.Gap u)

include hu

theorem clear_of_gap : Numeral.Clear u :=
  Ends.clear fun c hc => .inl (hu c hc)

/-! ## Tokens -/

theorem extends_atTerminator : Extends lexicon u atTerminator atTerminator := by
  intro t hl ends t' h
  obtain ⟨rfl, rfl⟩ := reads_atTerminator.eq_of_ok h hl (List.nil_append t.rest).symm
  rw [List.length_nil, Scanner.advance_zero]
  refine ⟨⟨0, t.advance_zero.symm⟩, ?_⟩
  have hlong := reads_atTerminator (t.followedBy u) hl (List.nil_append (t.rest ++ u)).symm
  rw [List.length_nil, Scanner.advance_zero] at hlong
  rw [hlong]
  cases t.rest with
  | nil =>
    cases hhead : u.head? with
    | none => simp [hhead]
    | some c => simp [hhead, hu c hhead]
  | cons c rest => rfl

theorem extends_terminated (v : ArgValue) :
    Extends lexicon u (terminated v) (terminated v) :=
  (extends_atTerminator hu).bind fun _ => Extends.ite (extends_pure v) extends_fail

theorem extends_bareText : Extends lexicon u bareText bareText := (extends_unquoted hu).map

theorem extends_valueRange : Extends lexicon u Scan.range Scan.range :=
  extends_range hu (clear_of_gap hu) (by decide)

theorem extends_dots : Extends lexicon u (testAny [".."] false) (testAny [".."] false) :=
  extends_testAny hu (by decide)

omit hu in
theorem extends_numberValue (m : Number) : Extends lexicon u (numberValue m) (numberValue m) := by
  unfold numberValue
  cases m.integer <;> exact extends_pure _

theorem extends_numberOrText : Extends lexicon u numberOrText numberOrText := by
  intro t hl v t' h
  change (number >>= _) t = _ at h
  change _ ∧ (number >>= _) (t.followedBy u) = _
  obtain ⟨m, t₁, hm, h₁⟩ := bind_eq_ok_iff.1 h
  obtain ⟨⟨n, rfl⟩, hm'⟩ := extends_number (clear_of_gap hu) t hl m t₁ hm
  obtain ⟨dots, t₂, hdots, h₂⟩ := bind_eq_ok_iff.1 h₁
  obtain ⟨-, hdots'⟩ := extends_dots hu (t.advance n) hl dots t₂ hdots
  obtain ⟨-, rfl⟩ := testAny_ok hdots
  rw [bind_of_ok hm', bind_of_ok hdots']
  split at h₂
  · next hsome =>
    obtain ⟨_, t₃, hset, h₃⟩ := bind_eq_ok_iff.1 h₂
    cases hset
    rw [if_pos hsome]
    exact (extends_valueRange hu).map t hl v t' h₃
  · next hnone =>
    obtain ⟨ends, t₃, hends, h₃⟩ := bind_eq_ok_iff.1 h₂
    obtain ⟨⟨k, rfl⟩, hends'⟩ := extends_atTerminator hu (t.advance n) hl ends t₃ hends
    rw [if_neg hnone, bind_of_ok hends']
    split at h₃
    · next htrue =>
      obtain ⟨⟨j, rfl⟩, hv⟩ := extends_numberValue m ((t.advance n).advance k) hl v t' h₃
      rw [if_pos htrue]
      refine ⟨⟨n + (k + j), ?_⟩, hv⟩
      rw [Scanner.advance_advance, Scanner.advance_advance]
    · next hfalse =>
      obtain ⟨_, t₄, hset, h₄⟩ := bind_eq_ok_iff.1 h₃
      cases hset
      rw [if_neg hfalse]
      exact extends_bareText hu t hl v t' h₄

theorem extends_bool : Extends lexicon u Scan.bool Scan.bool := by
  have hword : Extends lexicon u boolWord boolWord := by
    refine (extends_consumeAny hu (by decide)).bind fun word => ?_
    cases word with
    | none => exact extends_fail
    | some word => exact extends_pure _
  intro t hl b t' h
  rw [bool_eq hl] at h
  rw [bool_eq (t := t.followedBy u) hl]
  exact hword t hl b t' h

theorem extends_boolOrText : Extends lexicon u boolOrText boolOrText := by
  intro t hl v t' h
  change (Scan.bool >>= _) t = _ at h
  change _ ∧ (Scan.bool >>= _) (t.followedBy u) = _
  obtain ⟨b, t₁, hb, h₁⟩ := bind_eq_ok_iff.1 h
  obtain ⟨⟨n, rfl⟩, hb'⟩ := extends_bool hu t hl b t₁ hb
  obtain ⟨ends, t₂, hends, h₂⟩ := bind_eq_ok_iff.1 h₁
  obtain ⟨⟨k, rfl⟩, hends'⟩ := extends_atTerminator hu (t.advance n) hl ends t₂ hends
  rw [bind_of_ok hb', bind_of_ok hends']
  cases ends with
  | true =>
    cases h₂
    exact ⟨⟨n + k, t.advance_advance n k⟩, rfl⟩
  | false =>
    obtain ⟨_, t₃, hset, h₃⟩ := bind_eq_ok_iff.1 h₂
    cases hset
    exact extends_bareText hu t hl v t' h₃

theorem extends_token : Extends lexicon u token token :=
  (extends_dots hu).bind fun _ => Extends.ite
    ((extends_valueRange hu).bind fun r => extends_terminated hu (range r))
    ((extends_atNumber (clear_of_gap hu)).bind fun _ => Extends.ite (extends_numberOrText hu)
      ((extends_testAny hu (by decide)).bind fun _ =>
        Extends.ite (extends_boolOrText hu) (extends_bareText hu)))

theorem extendsAt_relativeScan {t : Scanner} (hl : t.lexicon = lexicon) (hne : t.rest ≠ []) :
    ExtendsAt u relativeScan relativeScan t := by
  refine (extendsAt_next hne).bind fun c t' hc => ?_
  rw [next_eq] at hc
  cases hc
  refine ((extends_numberOrZero (clear_of_gap hu)).bind fun x => ?_) _ hl
  exact extends_terminated hu (relative x)

/-! ## Values in values -/

section

variable {nested nested' : Scan ArgValue} {marks : List Char}

omit hu in
theorem hungry_entry : Hungry (Entry.scan marks nested) := hungry_string.bind

theorem extends_entry (hnested : Extends lexicon u nested nested') (hungry : Hungry nested) :
    Extends lexicon u (Entry.scan marks nested) (Entry.scan marks nested') :=
  (extends_string hu).bind fun _ => (extends_expect hu (by decide)).bind fun _ =>
    Extends.accept_bind hu (by decide)
      (fun _ => hnested.bind fun _ => extends_pure _) hungry.bind

theorem extendsAt_scanFrom (hnested : Extends lexicon u nested nested') (hungry : Hungry nested)
    {t : Scanner} (hl : t.lexicon = lexicon) {c : Char} (hc : t.rest.head? = some c) :
    ExtendsAt u (scanFrom nested c) (scanFrom nested' c) t := by
  unfold scanFrom
  split
  · refine (Extends.map ?_) t hl
    exact (extends_expect hu (by decide)).bind fun _ =>
      extends_itemsThrough hu (by decide) (by decide) (extends_entry hu hnested hungry)
        hungry_entry
  · refine (Extends.map ?_) t hl
    exact (extends_expect hu (by decide)).bind fun _ =>
      extends_itemsThrough hu (by decide) (by decide) hnested hungry
  · exact extends_quoted.map t hl
  · refine extendsAt_relativeScan hu hl ?_
    rintro hnil
    rw [hnil] at hc
    cases hc
  · exact extends_token hu t hl

theorem extends_scanWith (hnested : Extends lexicon u nested nested') (hungry : Hungry nested) :
    Extends lexicon u (scanWith nested) (scanWith nested') := by
  rw [scanWith_eq, scanWith_eq]
  refine Extends.peek_bind nofun fun c t hl hc => ?_
  exact extendsAt_scanFrom hu hnested hungry hl hc

omit hu in
theorem hungry_scan : Hungry ArgValue.scan := by
  intro t v t' h
  rw [ArgValue.scan, scanWith_eq] at h
  refine Hungry.peek_bind (fun _ _ _ hnone => ?_) t v t' h
  cases hnone

end

/-- The reader of values, by induction on what is left of the text. -/
theorem extends_scan : Extends lexicon u ArgValue.scan ArgValue.scan := by
  intro t
  induction hn : t.rest.length using Nat.strong_induction_on generalizing t with
  | _ n ih =>
    intro hl v t' h
    have hnested : Extends lexicon u (beyond t fun s _ => ArgValue.scan s)
        (beyond (t.followedBy u) fun s _ => ArgValue.scan s) := by
      intro s hs v' s' hread
      unfold beyond at hread ⊢
      split at hread
      · next hless =>
        have hlonger : (s.followedBy u).rest.length < (t.followedBy u).rest.length := by
          rw [Scanner.rest_followedBy, Scanner.rest_followedBy, List.length_append,
            List.length_append]
          exact Nat.add_lt_add_right hless _
        rw [dif_pos hlonger]
        exact ih s.rest.length (hn ▸ hless) s rfl hs v' s' hread
      · cases hread
    have hungry : Hungry (beyond t fun s _ => ArgValue.scan s) := by
      intro s v' s' hread
      unfold beyond at hread
      split at hread
      · exact hungry_scan s v' s' hread
      · cases hread
    rw [ArgValue.scan] at h ⊢
    exact extends_scanWith hu hnested hungry t hl v t' h

end

end CommandChain.ArgValue
