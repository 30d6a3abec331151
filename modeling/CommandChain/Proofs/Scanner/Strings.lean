import CommandChain.Proofs.Scanner.Reads

/-!
# What readers of strings take

An unquoted string goes as far as its characters allow (`unquoted_eq_ok_iff`). Between quotes
every character gives at most one of the string, so none of these stands further on than where
it was read from (`idxOf_le_of_closeQuote`); a string is read from its own characters exactly
if it holds neither the quote nor a backslash (`closeQuote_of_plain`, `plain_of_closeQuote`).
-/

namespace CommandChain

namespace Scan

/-! ## Between quotes -/

section

variable {quote d : Char} {s body follow : List Char} {n : Nat}

theorem idxOf_append_mark (s : List Char) (d : Char) (follow : List Char) :
    (s ++ d :: follow).idxOf d = s.idxOf d := by
  rw [List.idxOf_append, List.idxOf_cons_self, Nat.zero_add]
  split
  · rfl
  · next h => exact (List.idxOf_eq_length h).symm

theorem idxOf_cons_le {c : Char} (h : s.idxOf d ≤ body.idxOf d) :
    (c :: s).idxOf d ≤ (c :: body).idxOf d := by
  by_cases hc : c = d
  · rw [hc, List.idxOf_cons_self]
    exact Nat.zero_le _
  · rw [List.idxOf_cons_ne _ hc, List.idxOf_cons_ne _ hc]
    exact Nat.succ_le_succ h

theorem closeQuote_cons {c : Char} (hc : c ≠ '\\') (rest : List Char) :
    closeQuote quote (c :: rest) = if c = quote then some ([], 1)
      else (closeQuote quote rest).map fun (text, n) => (c :: text, n + 1) :=
  closeQuote.eq_4 quote c rest (fun h => absurd h hc) fun _ _ h => absurd h hc

/-- A quoted string ends at its quote, whatever comes behind it. -/
theorem closeQuote_split (h : closeQuote quote body = some (s, n)) :
    ∃ inner rest, body = inner ++ quote :: rest ∧ n = inner.length + 1 ∧
      ∀ follow, closeQuote quote (inner ++ quote :: follow) = some (s, n) := by
  have hplain {c : Char} {rest : List Char} (hend : c = '\\' → rest = [] → False)
      (hescape : ∀ c' rest', c = '\\' → rest = c' :: rest' → False) : c ≠ '\\' := by
    intro hc
    cases rest with
    | nil => exact hend hc rfl
    | cons c' rest' => exact hescape c' rest' hc rfl
  fun_induction closeQuote quote body generalizing s n with
  | case1 => cases h
  | case2 => cases h
  | case3 c rest ih =>
    obtain ⟨⟨s', n'⟩, hs', heq⟩ := Option.map_eq_some_iff.1 h
    cases heq
    obtain ⟨inner, rest, rfl, rfl, hclose⟩ := ih hs'
    refine ⟨'\\' :: c :: inner, rest, rfl, rfl, fun follow => ?_⟩
    rw [List.cons_append, List.cons_append, closeQuote, hclose]
    rfl
  | case4 rest hend hescape =>
    cases h
    refine ⟨[], rest, rfl, rfl, fun follow => ?_⟩
    rw [List.nil_append, closeQuote_cons (hplain hend hescape), if_pos rfl]
  | case5 c rest hend hescape hne ih =>
    obtain ⟨⟨s', n'⟩, hs', heq⟩ := Option.map_eq_some_iff.1 h
    cases heq
    have hc := hplain hend hescape
    obtain ⟨inner, rest, rfl, rfl, hclose⟩ := ih hs'
    refine ⟨c :: inner, rest, rfl, rfl, fun follow => ?_⟩
    rw [List.cons_append, closeQuote_cons hc, if_neg hne, hclose]
    rfl

/-- A character of the string stands no further on than in the text between the quotes. -/
theorem idxOf_le_of_closeQuote (hd : d ≠ '\\') (h : closeQuote quote body = some (s, n)) :
    s.idxOf d ≤ body.idxOf d := by
  fun_induction closeQuote quote body generalizing s n with
  | case1 => cases h
  | case2 => cases h
  | case3 c rest ih =>
    obtain ⟨⟨s', n'⟩, hs', heq⟩ := Option.map_eq_some_iff.1 h
    cases heq
    have hle := idxOf_cons_le (c := c) (ih hs')
    rw [List.idxOf_cons_ne _ (Ne.symm hd)]
    omega
  | case4 => cases h; exact Nat.zero_le _
  | case5 c rest _ _ _ ih =>
    obtain ⟨⟨s', n'⟩, hs', heq⟩ := Option.map_eq_some_iff.1 h
    cases heq
    exact idxOf_cons_le (ih hs')

/-- The characters before a quote are the string if none of them is special. -/
theorem closeQuote_of_plain (hs : quote ∉ s ∧ '\\' ∉ s) (hquote : quote ≠ '\\') :
    closeQuote quote (s ++ quote :: follow) = some (s, s.length + 1) := by
  induction s with
  | nil =>
    rw [List.nil_append, closeQuote_cons hquote, if_pos rfl]
    rfl
  | cons c s ih =>
    simp only [List.mem_cons, not_or] at hs
    obtain ⟨⟨hc, hs⟩, hc', hs'⟩ := hs
    rw [List.cons_append, closeQuote_cons (Ne.symm hc'), if_neg (Ne.symm hc), ih ⟨hs, hs'⟩]
    rfl

/-- A string that is read from its own characters holds nothing special: behind a backslash
the quote would stand further on in the string than where it was read from. -/
theorem plain_of_closeQuote (hquote : quote ≠ '\\')
    (h : closeQuote quote (s ++ quote :: follow) = some (s, n)) : quote ∉ s ∧ '\\' ∉ s := by
  induction s generalizing n with
  | nil => exact ⟨List.not_mem_nil, List.not_mem_nil⟩
  | cons c s ih =>
    rw [List.cons_append] at h
    by_cases hc : c = '\\'
    · subst hc
      cases hbody : s ++ quote :: follow with
      | nil => simp at hbody
      | cons c body =>
        rw [hbody, closeQuote.eq_3] at h
        obtain ⟨⟨s', n'⟩, hs', heq⟩ := Option.map_eq_some_iff.1 h
        cases heq
        have hle := idxOf_le_of_closeQuote hquote hs'
        have hidx := idxOf_append_mark s quote follow
        rw [hbody, List.idxOf_cons_ne _ (Ne.symm hquote)] at hidx
        omega
    · rw [closeQuote_cons hc] at h
      split at h
      · cases h
      · next hne =>
        obtain ⟨⟨s', n'⟩, hs', heq⟩ := Option.map_eq_some_iff.1 h
        cases heq
        obtain ⟨hq, hb⟩ := ih hs'
        simp [hq, hb, Ne.symm hne, Ne.symm hc]

end

/-! ## Readers -/

section

variable {t t' : Scanner} {s : String} {stops : List Char}

theorem quoted_eq_ok_iff : quoted t = .ok s t' ↔ ∃ quote body n, t.rest = quote :: body ∧
    quote ∈ t.lexicon.quotes ∧ closeQuote quote body = some (s.toList, n) ∧
      t' = t.advance (n + 1) := by
  constructor
  · intro h
    unfold quoted at h
    split at h
    · cases h
    · next quote body hrest =>
      split at h
      · next hquote =>
        split at h
        · next chars n hclose =>
          cases h
          exact ⟨quote, body, n, hrest, List.contains_iff_mem.1 hquote,
            by rw [hclose, String.toList_ofList], rfl⟩
        · cases h
      · cases h
  · rintro ⟨quote, body, n, hrest, hquote, hclose, rfl⟩
    simp only [quoted, hrest, if_pos (List.contains_iff_mem.2 hquote), hclose, String.ofList_toList]

/-- An unquoted string may hold the characters that are neither blank nor a stop nor a
symbol, and ends before a blank or a stop. -/
theorem unquoted_eq_ok_iff : unquoted stops t = .ok s t' ↔ ∃ rest, t.rest = s.toList ++ rest ∧
    s.toList ≠ [] ∧
    (∀ c ∈ s.toList, c ∉ t.lexicon.whitespace ∧ c ∉ stops ∧ c ∉ t.lexicon.symbols) ∧
    (∀ c ∈ rest.head?, c ∈ t.lexicon.whitespace ∨ c ∈ stops) ∧
      t' = t.advance s.toList.length := by
  constructor
  · intro h
    have hsplit := List.takeWhile_append_dropWhile (l := t.rest)
      (p := fun c => !(t.isBlank c || stops.contains c) && !t.lexicon.symbols.contains c)
    have hchars := fun c (hc : c ∈ t.rest.takeWhile fun c =>
      !(t.isBlank c || stops.contains c) && !t.lexicon.symbols.contains c) =>
        List.mem_takeWhile_imp hc
    unfold unquoted at h
    dsimp only at h
    generalize t.rest.takeWhile _ = chars at h hsplit hchars
    generalize t.rest.dropWhile _ = rest at hsplit
    rw [Scanner.rest_advance_of_append hsplit.symm] at h
    split at h
    · cases h
    · next hhead =>
      split at h
      · cases h
      · next hne =>
        cases h
        refine ⟨rest, ?_, ?_, ?_, ?_, ?_⟩
        · rw [String.toList_ofList, hsplit]
        · simpa using hne
        · rw [String.toList_ofList]
          intro c hc
          simpa [Scanner.isBlank, not_or, and_assoc] using hchars c hc
        · intro c hc
          have hend := Option.filter_eq_none_iff.1 hhead c hc
          simpa [Scanner.isBlank, or_iff_not_imp_left] using hend
        · rw [String.toList_ofList]
  · rintro ⟨rest, hrest, hne, hchars, hend, rfl⟩
    have hread := reads_unquoted hne hchars hend t rfl hrest
    rwa [String.ofList_toList] at hread

/-- A string is read between quotes where one stands behind the blanks. -/
theorem string_eq : string stops t =
    if t.skipBlanks.rest.head?.any t.lexicon.quotes.contains then quoted t.skipBlanks
    else unquoted stops t.skipBlanks := by
  have hpeek : peek true t = .ok t.skipBlanks.rest.head? t.skipBlanks := rfl
  unfold string
  rw [bind_of_ok hpeek]
  cases t.skipBlanks.rest.head? with
  | none => rfl
  | some c =>
    have hget : (get : Scan Scanner) t.skipBlanks = .ok t.skipBlanks t.skipBlanks := rfl
    dsimp only
    rw [bind_of_ok hget, Option.any_some]
    change (if t.lexicon.quotes.contains c then quoted else unquoted stops) t.skipBlanks = _
    split <;> rfl

theorem reads_string_unquoted {lexicon : Lexicon} {text b follow : List Char}
    (hb : lexicon.Blanks b) (hne : text ≠ []) (hquote : ∀ c ∈ text, c ∉ lexicon.quotes)
    (hin : ∀ c ∈ text, c ∉ lexicon.whitespace ∧ c ∉ stops ∧ c ∉ lexicon.symbols)
    (hend : ∀ c ∈ follow.head?, c ∈ lexicon.whitespace ∨ c ∈ stops) :
    Reads lexicon (string stops) (b ++ text) follow (String.ofList text) := by
  rintro t rfl ht
  rw [List.append_assoc] at ht
  have hread := reads_unquoted hne hin hend (t.advance b.length) rfl
    (Scanner.rest_advance_of_append ht)
  cases text with
  | nil => exact absurd rfl hne
  | cons c text =>
    have hc := hin c List.mem_cons_self
    have hsolid : t.lexicon.Solid (c :: text ++ follow) := fun c' hc' => by cases hc'; exact hc.1
    rw [string_eq, Scanner.skipBlanks_eq hb hsolid ht, Scanner.rest_advance_of_append ht, if_neg,
      hread, Scanner.advance_advance, List.length_append]
    simpa using hquote c List.mem_cons_self

end

end Scan

end CommandChain
