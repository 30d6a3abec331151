import CommandChain.Proofs.Scanner.Range
import CommandChain.Value.Parser

/-!
# What the reader of values gives

`token_ok` and `scan_ok` say from which branch of the reader a value comes. From
them follows what no value that was read contains: a range without bounds
(`bounded_of_scan`).
-/

namespace CommandChain

/-- The range has a bound. -/
def IntRange.Bounded (r : IntRange) : Prop := r.min.isSome ∨ r.max.isSome

namespace ArgValue

open Scan

/-! ## Leaves -/

mutual

/-- The values without parts of which a value is made. -/
def leaves : ArgValue → List ArgValue
  | bool b => [bool b]
  | int i => [int i]
  | float x => [float x]
  | range r => [range r]
  | relative x => [relative x]
  | text s => [text s]
  | map entries => entryLeaves entries
  | list items => itemLeaves items

def entryLeaves : List (Entry ArgValue) → List ArgValue
  | [] => []
  | ⟨_, _, value⟩ :: rest => value.leaves ++ entryLeaves rest

def itemLeaves : List ArgValue → List ArgValue
  | [] => []
  | value :: rest => value.leaves ++ itemLeaves rest

end

theorem mem_entryLeaves {leaf : ArgValue} {entries : List (Entry ArgValue)} :
    leaf ∈ entryLeaves entries ↔ ∃ e ∈ entries, leaf ∈ e.value.leaves := by
  induction entries with
  | nil => simp [entryLeaves]
  | cons e entries ih =>
    obtain ⟨key, inverted, value⟩ := e
    simp [entryLeaves, ih]

theorem mem_itemLeaves {leaf : ArgValue} {items : List ArgValue} :
    leaf ∈ itemLeaves items ↔ ∃ v ∈ items, leaf ∈ v.leaves := by
  induction items with
  | nil => simp [itemLeaves]
  | cons v items ih => simp [itemLeaves, ih]

/-! ## Branches -/

/-- How a token came to be read as a value. -/
inductive TokenRead (t : Scanner) : ArgValue → Prop where
  | bool (b : Bool) : TokenRead t (bool b)
  | int (i : Int64) : TokenRead t (int i)
  | float {m : Number} {t₁ t₂ : Scanner} : number t = .ok m t₁ → m.integer = none →
      atTerminator t₁ = .ok true t₂ → TokenRead t (float m.value)
  | range {r : IntRange} : r.Bounded → TokenRead t (range r)
  | text (s : String) : TokenRead t (text s)

section

variable {t t' : Scanner} {v : ArgValue}

theorem atNumber_ok {found : Bool} (h : atNumber t = .ok found t') : t' = t := by
  cases h
  rfl

theorem terminated_ok {v' : ArgValue} (h : terminated v t = .ok v' t') :
    v' = v ∧ ∃ t₁, atTerminator t = .ok true t₁ := by
  obtain ⟨ends, t₁, hends, h₁⟩ := bind_eq_ok_iff.1 h
  cases ends with
  | true => cases h₁; exact ⟨rfl, t', hends⟩
  | false => cases h₁

/-- A range that is read has a bound. -/
theorem range_ok {r : IntRange} (h : Scan.range t = .ok r t') : r.Bounded := by
  obtain ⟨w, hw, -⟩ := Scan.range_ok h
  exact hw.bounded

theorem bareText_ok (h : bareText t = .ok v t') : ∃ s, v = text s := by
  obtain ⟨s, _, rfl⟩ := map_eq_ok_iff.1 h
  exact ⟨s, rfl⟩

theorem numberOrText_ok (h : numberOrText t = .ok v t') : TokenRead t v := by
  change (number >>= _) t = _ at h
  obtain ⟨m, t₁, hnumber, h₁⟩ := bind_eq_ok_iff.1 h
  obtain ⟨dots, t₂, hdots, h₂⟩ := bind_eq_ok_iff.1 h₁
  obtain ⟨-, rfl⟩ := testAny_ok hdots
  split at h₂
  · obtain ⟨_, t₃, _, h₃⟩ := bind_eq_ok_iff.1 h₂
    obtain ⟨r, hr, rfl⟩ := map_eq_ok_iff.1 h₃
    exact .range (range_ok hr)
  · obtain ⟨ends, t₃, hends, h₃⟩ := bind_eq_ok_iff.1 h₂
    cases ends with
    | true =>
      rw [if_pos rfl] at h₃
      cases hm : m.integer with
      | none => rw [hm] at h₃; cases h₃; exact .float hnumber hm hends
      | some i => rw [hm] at h₃; cases h₃; exact .int i
    | false =>
      obtain ⟨_, t₄, _, h₄⟩ := bind_eq_ok_iff.1 h₃
      obtain ⟨s, rfl⟩ := bareText_ok h₄
      exact .text s

theorem boolOrText_ok (h : boolOrText t = .ok v t') : TokenRead t v := by
  change (Scan.bool >>= _) t = _ at h
  obtain ⟨b, t₁, _, h₁⟩ := bind_eq_ok_iff.1 h
  obtain ⟨ends, t₂, _, h₂⟩ := bind_eq_ok_iff.1 h₁
  cases ends with
  | true => cases h₂; exact .bool b
  | false =>
    obtain ⟨_, t₃, _, h₃⟩ := bind_eq_ok_iff.1 h₂
    obtain ⟨s, rfl⟩ := bareText_ok h₃
    exact .text s

theorem token_ok (h : token t = .ok v t') : TokenRead t v := by
  obtain ⟨dots, t₁, hdots, h₁⟩ := bind_eq_ok_iff.1 h
  obtain ⟨-, rfl⟩ := testAny_ok hdots
  split at h₁
  · obtain ⟨r, t₂, hr, h₂⟩ := bind_eq_ok_iff.1 h₁
    rw [(terminated_ok h₂).1]
    exact .range (range_ok hr)
  · obtain ⟨found, t₂, hfound, h₂⟩ := bind_eq_ok_iff.1 h₁
    obtain rfl := atNumber_ok hfound
    split at h₂
    · exact numberOrText_ok h₂
    · obtain ⟨word, t₃, hword, h₃⟩ := bind_eq_ok_iff.1 h₂
      obtain ⟨-, rfl⟩ := testAny_ok hword
      split at h₃
      · exact boolOrText_ok h₃
      · obtain ⟨s, rfl⟩ := bareText_ok h₃
        exact .text s

end

/-- The reader of a value that begins with `c`. -/
def scanFrom (nested : Scan ArgValue) (c : Char) : Scan ArgValue :=
  match c with
  | '{' => map <$> bracketed "\x7b" "\x7d" (Entry.scan ['=', ',', '}'] nested)
  | '[' => list <$> bracketed "[" "]" nested
  | '"' => text <$> quoted
  | '~' => relativeScan
  | _ => token

theorem scanFrom_eq_token (nested : Scan ArgValue) {c : Char} (h : c ∉ ['{', '[', '"', '~']) :
    scanFrom nested c = token := by
  unfold scanFrom
  split <;> simp_all

theorem scanWith_eq (nested : Scan ArgValue) : scanWith nested =
    (peek true >>= fun head => match head with
      | none => fail "expected value"
      | some c => scanFrom nested c) := by
  unfold scanWith
  refine congrArg (peek true >>= ·) (funext fun head => ?_)
  cases head with
  | none => rfl
  | some c =>
    unfold scanFrom
    split <;> simp_all

/-- How a value came to be read, with the values in it read by `nested`. -/
inductive ValueRead (nested : Scan ArgValue) (t : Scanner) : ArgValue → Prop where
  | map {entries : List (Entry ArgValue)} :
      (∀ e ∈ entries, ∃ t₁ t₂, nested t₁ = .ok e.value t₂) → ValueRead nested t (map entries)
  | list {items : List ArgValue} :
      (∀ v ∈ items, ∃ t₁ t₂, nested t₁ = .ok v t₂) → ValueRead nested t (list items)
  | relative (x : Float) : ValueRead nested t (relative x)
  | token {v : ArgValue} : TokenRead t v → ValueRead nested t v

section

variable {t t' : Scanner} {v : ArgValue}

theorem entry_scan_ok {stops : List Char} {nested : Scan ArgValue} {e : Entry ArgValue}
    (h : Entry.scan stops nested t = .ok e t') : ∃ t₁ t₂, nested t₁ = .ok e.value t₂ := by
  obtain ⟨_, _, _, h₁⟩ := bind_eq_ok_iff.1 h
  obtain ⟨_, _, _, h₂⟩ := bind_eq_ok_iff.1 h₁
  obtain ⟨_, _, _, h₃⟩ := bind_eq_ok_iff.1 h₂
  obtain ⟨value, t₂, hvalue, h₄⟩ := bind_eq_ok_iff.1 h₃
  cases h₄
  exact ⟨_, _, hvalue⟩

theorem bracketed_forall {α : Type} {P : α → Prop} {openBracket close : String} {item : Scan α}
    {l : List α} (hitem : ∀ {s a t}, item s = .ok a t → P a)
    (h : bracketed openBracket close item t = .ok l t') : ∀ a ∈ l, P a := by
  obtain ⟨_, _, _, h₁⟩ := bind_eq_ok_iff.1 h
  exact itemsThrough_forall hitem h₁

theorem scanFrom_ok {nested : Scan ArgValue} {c : Char} (h : scanFrom nested c t = .ok v t') :
    ValueRead nested t v := by
  unfold scanFrom at h
  split at h
  · obtain ⟨entries, hentries, rfl⟩ := map_eq_ok_iff.1 h
    exact .map (bracketed_forall entry_scan_ok hentries)
  · obtain ⟨items, hitems, rfl⟩ := map_eq_ok_iff.1 h
    exact .list (bracketed_forall (fun hv => ⟨_, _, hv⟩) hitems)
  · obtain ⟨s, _, rfl⟩ := map_eq_ok_iff.1 h
    exact .token (.text s)
  · obtain ⟨_, _, _, h₁⟩ := bind_eq_ok_iff.1 h
    obtain ⟨x, _, _, h₂⟩ := bind_eq_ok_iff.1 h₁
    rw [(terminated_ok h₂).1]
    exact .relative x
  · exact .token (token_ok h)

theorem scan_ok (h : ArgValue.scan t = .ok v t') :
    ∃ t₁, peek true t = .ok t₁.rest.head? t₁ ∧
      ValueRead (beyond t fun u _ => ArgValue.scan u) t₁ v := by
  rw [ArgValue.scan, scanWith_eq] at h
  obtain ⟨head, t₁, hpeek, h₁⟩ := bind_eq_ok_iff.1 h
  cases hpeek
  refine ⟨_, rfl, ?_⟩
  cases hhead : (t.settled true).rest.head? with
  | none => rw [hhead] at h₁; cases h₁
  | some c => rw [hhead] at h₁; exact scanFrom_ok h₁

theorem beyond_ok {α : Type} {read : (u : Scanner) → u.rest.length < t.rest.length →
    EStateM.Result Error Scanner α} {u u' : Scanner} {a : α} (h : beyond t read u = .ok a u') :
    ∃ hu : u.rest.length < t.rest.length, read u hu = .ok a u' := by
  unfold beyond at h
  split at h
  · next hu => exact ⟨hu, h⟩
  · cases h

/-- No value that is read contains a range without bounds. -/
theorem bounded_of_scan (h : ArgValue.scan t = .ok v t') {r : IntRange}
    (hr : range r ∈ v.leaves) : r.Bounded := by
  induction t using ArgValue.scan.induct generalizing v t' with
  | case1 t ih =>
    obtain ⟨t₁, _, hread⟩ := scan_ok h
    have hnested {v : ArgValue} (hv : ∃ u u', beyond t (fun u _ => ArgValue.scan u) u = .ok v u')
        (hmem : range r ∈ v.leaves) : r.Bounded := by
      obtain ⟨u, u', hu⟩ := hv
      obtain ⟨hless, hscan⟩ := beyond_ok hu
      exact ih u hless hscan hmem
    cases hread with
    | map hentries =>
      obtain ⟨e, he, hmem⟩ := mem_entryLeaves.1 hr
      exact hnested (hentries e he) hmem
    | list hitems =>
      obtain ⟨v, hv, hmem⟩ := mem_itemLeaves.1 hr
      exact hnested (hitems v hv) hmem
    | relative x => simp [leaves] at hr
    | token htoken =>
      cases htoken with
      | range hb => simp only [leaves, List.mem_singleton, range.injEq] at hr; exact hr ▸ hb
      | bool | int | float | text => simp [leaves] at hr

end

end ArgValue

end CommandChain
