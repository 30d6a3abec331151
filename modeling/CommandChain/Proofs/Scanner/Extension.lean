import CommandChain.Proofs.Scanner.Numeral
import CommandChain.Proofs.Scanner.Strings
import Mathlib.Data.Bool.AllAny

/-!
# Longer texts

A reader extends (`Extends`) if a further text behind the one it reads makes no difference:
where it succeeds it gives the same value, and leaves the further text behind what it left
before. The further text is empty or begins with a blank (`Gap`). Two readers are related,
since the reader of nested values depends on where it stands.

A reader that passes blanks runs into the further text where nothing but blanks is left. All
such readers stand before one that needs something to read (`Hungry`), which fails there
(`Extends.accept_bind`).
-/

namespace CommandChain

namespace Scanner

/-- The scanner with a further text behind its own. -/
def followedBy (t : Scanner) (u : List Char) : Scanner := { t with rest := t.rest ++ u }

section

variable {t : Scanner} {u : List Char} {n : Nat}

@[simp] theorem rest_followedBy : (t.followedBy u).rest = t.rest ++ u := rfl

@[simp] theorem lexicon_followedBy : (t.followedBy u).lexicon = t.lexicon := rfl

theorem followedBy_advance (h : n ≤ t.rest.length) :
    (t.followedBy u).advance n = (t.advance n).followedBy u := by
  simp [followedBy, advance, List.take_append_of_le_length h, List.drop_append_of_le_length h]

theorem followedBy_skipBlanks (h : t.skipBlanks.rest ≠ []) :
    (t.followedBy u).skipBlanks = t.skipBlanks.followedBy u := by
  obtain ⟨b, hb, hrest, hsolid, hskip⟩ := t.exists_skipBlanks
  have hsplit : (t.followedBy u).rest = b ++ (t.skipBlanks.rest ++ u) := by
    rw [rest_followedBy, ← List.append_assoc, ← hrest]
  have hlength : b.length ≤ t.rest.length := by
    rw [hrest, List.length_append]
    exact Nat.le_add_right _ _
  have hlong : (t.followedBy u).skipBlanks = (t.followedBy u).advance b.length :=
    skipBlanks_eq hb (hsolid.append h u) hsplit
  rw [hlong, followedBy_advance hlength, ← hskip]

theorem ne_nil_of_skipBlanks (h : t.skipBlanks.rest ≠ []) : t.rest ≠ [] := by
  obtain ⟨b, -, hrest, -⟩ := t.exists_skipBlanks
  rw [hrest]
  exact List.append_ne_nil_of_right_ne_nil b h

theorem exists_settled (t : Scanner) (skip : Bool) : ∃ n, t.settled skip = t.advance n := by
  cases skip with
  | true => exact ⟨_, rfl⟩
  | false => exact ⟨0, t.advance_zero.symm⟩

theorem followedBy_settled {skip : Bool} (h : skip → t.skipBlanks.rest ≠ []) :
    (t.followedBy u).settled skip = (t.settled skip).followedBy u := by
  cases skip with
  | true => exact followedBy_skipBlanks (h rfl)
  | false => rfl

end

end Scanner

/-- The text is empty or begins with a blank. -/
def Lexicon.Gap (lexicon : Lexicon) (u : List Char) : Prop := ∀ c ∈ u.head?, c ∈ lexicon.whitespace

/-- The token is not empty and holds no blank. -/
structure Lexicon.Token (lexicon : Lexicon) (token : String) : Prop where
  ne_nil : token.toList ≠ []
  chars : ∀ c ∈ token.toList, c ∉ lexicon.whitespace

instance (lexicon : Lexicon) (token : String) : Decidable (lexicon.Token token) :=
  decidable_of_iff (token.toList ≠ [] ∧ token.toList.all fun c => c ∉ lexicon.whitespace)
    ⟨fun h => ⟨h.1, List.all_iff_forall_prop.1 h.2⟩, fun h => ⟨h.1, List.all_iff_forall_prop.2 h.2⟩⟩

namespace Scan

variable {α β : Type} {lexicon : Lexicon} {u : List Char} {t : Scanner}

/-- The second reader does on the longer text what the first does on the text at `t`, where
the first succeeds; it only goes forward. -/
def ExtendsAt (u : List Char) (x y : Scan α) (t : Scanner) : Prop :=
  ∀ a t', x t = .ok a t' → (∃ n, t' = t.advance n) ∧ y (t.followedBy u) = .ok a (t'.followedBy u)

def Extends (lexicon : Lexicon) (u : List Char) (x y : Scan α) : Prop :=
  ∀ t : Scanner, t.lexicon = lexicon → ExtendsAt u x y t

/-- The reader fails where nothing is left to read. -/
def Hungry (x : Scan α) : Prop := ∀ t a t', x t = .ok a t' → t.rest ≠ []

/-! ## Sequences of readers -/

section

variable {x y : Scan α} {f g : α → Scan β}

theorem ExtendsAt.bind (hx : ExtendsAt u x y t)
    (hf : ∀ a t', x t = .ok a t' → ExtendsAt u (f a) (g a) t') :
    ExtendsAt u (x >>= f) (y >>= g) t := by
  intro b t' h
  obtain ⟨a, t₁, ha, hb⟩ := bind_eq_ok_iff.1 h
  obtain ⟨⟨m, rfl⟩, hy⟩ := hx a t₁ ha
  obtain ⟨⟨n, rfl⟩, hg⟩ := hf a _ ha b t' hb
  exact ⟨⟨m + n, t.advance_advance m n⟩, (bind_of_ok hy).trans hg⟩

theorem Extends.bind (hx : Extends lexicon u x y)
    (hf : ∀ a, Extends lexicon u (f a) (g a)) : Extends lexicon u (x >>= f) (y >>= g) := by
  intro t hl
  refine (hx t hl).bind fun a t' ha => hf a t' ?_
  obtain ⟨⟨n, rfl⟩, -⟩ := hx t hl a t' ha
  exact hl

theorem extends_pure (a : α) : Extends lexicon u (pure a) (pure a) := by
  intro t _ b t' h
  cases h
  exact ⟨⟨0, t.advance_zero.symm⟩, rfl⟩

theorem extends_fail {message : String} : Extends lexicon u (fail message) y := by
  intro t _ a t' h
  cases h

theorem ExtendsAt.map {k : α → β} (hx : ExtendsAt u x y t) : ExtendsAt u (k <$> x) (k <$> y) t := by
  intro b t' h
  obtain ⟨a, ha, rfl⟩ := map_eq_ok_iff.1 h
  exact ⟨(hx a t' ha).1, map_of_ok (hx a t' ha).2⟩

theorem Extends.map {k : α → β} (hx : Extends lexicon u x y) :
    Extends lexicon u (k <$> x) (k <$> y) :=
  fun t hl => (hx t hl).map

theorem Extends.ite {p : Prop} [Decidable p] {x' y' : Scan α} (h : Extends lexicon u x y)
    (h' : Extends lexicon u x' y') :
    Extends lexicon u (if p then x else x') (if p then y else y') := by
  split <;> assumption

theorem Hungry.bind (hx : Hungry x) : Hungry (x >>= f) := by
  intro t b t' h
  obtain ⟨a, t₁, ha, -⟩ := bind_eq_ok_iff.1 h
  exact hx t a t₁ ha

end

/-! ## Tokens -/

section

variable {f g : Option Char → Scan α}

theorem next_eq (t : Scanner) : next false t = .ok t.rest.head? (t.advance 1) := rfl

theorem peek_eq (t : Scanner) : peek true t = .ok t.skipBlanks.rest.head? t.skipBlanks := rfl

theorem extendsAt_next (h : t.rest ≠ []) : ExtendsAt u (next false) (next false) t := by
  intro a t' ha
  rw [next_eq] at ha
  cases ha
  refine ⟨⟨1, rfl⟩, ?_⟩
  have hlength : 1 ≤ t.rest.length := List.length_pos_of_ne_nil h
  rw [next_eq, Scanner.followedBy_advance hlength, Scanner.rest_followedBy,
    List.head?_append_of_ne_nil t.rest h]

theorem extendsAt_peek_false (h : t.rest ≠ []) : ExtendsAt u (peek false) (peek false) t := by
  intro a t' ha
  cases ha
  refine ⟨⟨0, t.advance_zero.symm⟩, ?_⟩
  have hhead : (t.rest ++ u).head? = t.rest.head? := List.head?_append_of_ne_nil t.rest h
  exact congrArg (EStateM.Result.ok · (t.followedBy u)) hhead

/-- A reader that decides by the next character, and fails if there is none. -/
theorem Extends.peek_bind (hnone : ∀ t a t', f none t ≠ .ok a t')
    (hf : ∀ c t, t.lexicon = lexicon → t.rest.head? = some c →
      ExtendsAt u (f (some c)) (g (some c)) t) :
    Extends lexicon u (peek true >>= f) (peek true >>= g) := by
  intro t hl a t' h
  rw [bind_of_ok (peek_eq t)] at h
  cases hhead : t.skipBlanks.rest.head? with
  | none =>
    rw [hhead] at h
    exact absurd h (hnone _ a t')
  | some c =>
    rw [hhead] at h
    have hne : t.skipBlanks.rest ≠ [] := by
      rintro hnil
      rw [hnil] at hhead
      cases hhead
    have hskip := Scanner.followedBy_skipBlanks (u := u) hne
    have hpeek : peek true (t.followedBy u) = .ok (some c) (t.skipBlanks.followedBy u) := by
      rw [peek_eq, hskip, Scanner.rest_followedBy, List.head?_append_of_ne_nil _ hne, hhead]
    obtain ⟨⟨n, rfl⟩, hg⟩ := hf c t.skipBlanks hl hhead a t' h
    exact ⟨⟨_, t.advance_advance _ n⟩, (bind_of_ok hpeek).trans hg⟩

theorem Hungry.peek_bind (hnone : ∀ t a t', f none t ≠ .ok a t') : Hungry (peek true >>= f) := by
  intro t a t' h
  rw [bind_of_ok (peek_eq t)] at h
  refine Scanner.ne_nil_of_skipBlanks fun hnil => ?_
  rw [hnil] at h
  exact hnone _ a t' h

section

variable {token : String}

theorem isPrefixOf_append (hu : lexicon.Gap u) (htoken : lexicon.Token token) (s : List Char) :
    token.toList.isPrefixOf (s ++ u) = token.toList.isPrefixOf s := by
  rw [Bool.eq_iff_iff, List.isPrefixOf_iff_prefix, List.isPrefixOf_iff_prefix]
  exact ⟨prefix_of_append hu htoken.chars, fun h => h.trans (List.prefix_append s u)⟩

theorem extendsAt_accept (hu : t.lexicon.Gap u) (htoken : t.lexicon.Token token) {skip : Bool}
    (h : skip → t.skipBlanks.rest ≠ []) :
    ExtendsAt u (accept token skip) (accept token skip) t := by
  intro a t' ha
  obtain ⟨m, hm⟩ := t.exists_settled skip
  rw [accept_eq htoken.ne_nil] at ha ⊢
  rw [Scanner.followedBy_settled h, Scanner.rest_followedBy, isPrefixOf_append hu htoken]
  split at ha
  · next hp =>
    cases ha
    have hlength : token.length ≤ (t.settled skip).rest.length := by
      have hle := (List.isPrefixOf_iff_prefix.1 hp).length_le
      rwa [String.length_toList] at hle
    rw [if_pos hp, Scanner.followedBy_advance hlength]
    exact ⟨⟨m + token.length, by rw [hm, Scanner.advance_advance]⟩, rfl⟩
  · next hp =>
    cases ha
    rw [if_neg hp]
    exact ⟨⟨m, hm⟩, rfl⟩

/-- A mark that may stand behind blanks, before a reader that needs something to read if the
mark is missing. -/
theorem Extends.accept_bind {f g : Bool → Scan α} (hu : lexicon.Gap u)
    (htoken : lexicon.Token token)
    (hf : ∀ b, Extends lexicon u (f b) (g b)) (hungry : Hungry (f false)) :
    Extends lexicon u (accept token true >>= f) (accept token true >>= g) := by
  rintro t rfl
  by_cases hnil : t.skipBlanks.rest = []
  · intro a t' h
    have haccept : accept token true t = .ok false t.skipBlanks := by
      have hsettled : t.settled true = t.skipBlanks := rfl
      rw [accept_eq htoken.ne_nil, hsettled, hnil, if_neg]
      simpa [List.isPrefixOf_iff_prefix] using htoken.ne_nil
    rw [bind_of_ok haccept] at h
    exact absurd hnil (hungry _ a t' h)
  · refine (extendsAt_accept hu htoken fun _ => hnil).bind fun b t' hb => hf b t' ?_
    obtain ⟨⟨n, rfl⟩, -⟩ := extendsAt_accept (u := u) hu htoken (fun _ => hnil) b t' hb
    rfl

theorem extends_expect (hu : lexicon.Gap u) (htoken : lexicon.Token token) :
    Extends lexicon u (expect token true) (expect token true) :=
  Extends.accept_bind hu htoken (fun _ => extends_fail.ite (extends_pure ())) nofun

/-- The mark that is expected stands behind the blanks. -/
theorem expect_ok {t' : Scanner} (hne : token.toList ≠ []) (h : expect token true t = .ok () t') :
    token.toList <+: t.skipBlanks.rest ∧ t' = t.skipBlanks.advance token.length := by
  obtain ⟨b, t₁, hb, h₁⟩ := bind_eq_ok_iff.1 h
  rw [accept_eq hne] at hb
  split at hb
  · next hp =>
    cases hb
    cases h₁
    exact ⟨List.isPrefixOf_iff_prefix.1 hp, rfl⟩
  · cases hb
    cases h₁

theorem hungry_expect (hne : token.toList ≠ []) : Hungry (expect token true) := by
  intro t a t' h
  refine Scanner.ne_nil_of_skipBlanks fun hnil => hne ?_
  have hp := (expect_ok hne h).1
  rwa [hnil, List.prefix_nil] at hp

end

end

/-! ## Strings -/

section

variable {stops : List Char}

theorem extends_takeWhile {p : Char → Bool} (hp : ∀ c ∈ u.head?, p c = false) :
    Extends lexicon u (takeWhile p) (takeWhile p) := by
  intro t _ s t' h
  cases h
  have hlength : (t.rest.takeWhile p).length ≤ t.rest.length := (List.takeWhile_prefix p).length_le
  refine ⟨⟨_, rfl⟩, ?_⟩
  unfold takeWhile Scanner.skipWhile
  rw [Scanner.rest_followedBy, takeWhile_append_of_head hp, Scanner.followedBy_advance hlength]

theorem extends_quoted : Extends lexicon u quoted quoted := by
  intro t _ s t' h
  obtain ⟨quote, body, n, hrest, hquote, hclose, rfl⟩ := quoted_eq_ok_iff.1 h
  obtain ⟨inner, rest, rfl, rfl, hclose'⟩ := closeQuote_split hclose
  have hlength : inner.length + 1 + 1 ≤ t.rest.length := by
    rw [hrest]
    simp
  refine ⟨⟨_, rfl⟩, quoted_eq_ok_iff.2 ⟨quote, inner ++ quote :: (rest ++ u), _, ?_, hquote,
    hclose' _, (Scanner.followedBy_advance hlength).symm⟩⟩
  rw [Scanner.rest_followedBy, hrest]
  simp

theorem extends_unquoted (hu : lexicon.Gap u) :
    Extends lexicon u (unquoted stops) (unquoted stops) := by
  rintro t rfl s t' h
  obtain ⟨rest, hrest, hne, hchars, hend, rfl⟩ := unquoted_eq_ok_iff.1 h
  have hlength : s.toList.length ≤ t.rest.length := by
    rw [hrest, List.length_append]
    exact Nat.le_add_right _ _
  refine ⟨⟨_, rfl⟩, unquoted_eq_ok_iff.2 ⟨rest ++ u, ?_, hne, hchars, ?_,
    (Scanner.followedBy_advance hlength).symm⟩⟩
  · rw [Scanner.rest_followedBy, hrest, List.append_assoc]
  · cases rest with
    | nil => exact fun c hc => .inl (hu c hc)
    | cons c rest => exact hend

theorem hungry_quoted : Hungry quoted := by
  intro t s t' h
  obtain ⟨quote, body, n, hrest, -⟩ := quoted_eq_ok_iff.1 h
  rw [hrest]
  exact List.cons_ne_nil quote body

theorem hungry_unquoted : Hungry (unquoted stops) := by
  intro t s t' h
  obtain ⟨rest, hrest, hne, -⟩ := unquoted_eq_ok_iff.1 h
  rw [hrest]
  exact List.append_ne_nil_of_left_ne_nil hne rest

theorem ne_nil_of_string {s : String} {t' : Scanner} (h : string stops t = .ok s t') :
    t.skipBlanks.rest ≠ [] := by
  rw [string_eq] at h
  split at h
  · exact hungry_quoted _ _ _ h
  · exact hungry_unquoted _ _ _ h

theorem hungry_string : Hungry (string stops) :=
  fun _ _ _ h => Scanner.ne_nil_of_skipBlanks (ne_nil_of_string h)

theorem extends_string (hu : lexicon.Gap u) : Extends lexicon u (string stops) (string stops) := by
  intro t hl s t' h
  have hne := ne_nil_of_string h
  have hskip := Scanner.followedBy_skipBlanks (u := u) hne
  rw [string_eq] at h ⊢
  rw [hskip, Scanner.rest_followedBy, List.head?_append_of_ne_nil _ hne, Scanner.lexicon_followedBy]
  split at h
  · next hquote =>
    obtain ⟨⟨n, rfl⟩, hread⟩ := extends_quoted t.skipBlanks hl s t' h
    rw [if_pos hquote]
    exact ⟨⟨_, t.advance_advance _ n⟩, hread⟩
  · next hquote =>
    obtain ⟨⟨n, rfl⟩, hread⟩ := extends_unquoted hu t.skipBlanks hl s t' h
    rw [if_neg hquote]
    exact ⟨⟨_, t.advance_advance _ n⟩, hread⟩

end

/-! ## Numbers -/

section

theorem extends_atNumber (hu : Numeral.Clear u) : Extends lexicon u atNumber atNumber := by
  intro t _ a t' h
  cases h
  refine ⟨⟨0, t.advance_zero.symm⟩, ?_⟩
  change EStateM.Result.ok (Numeral.read (t.rest ++ u)).isSome (t.followedBy u) = _
  rw [hu.read_append]

theorem extends_number (hu : Numeral.Clear u) : Extends lexicon u number number := by
  intro t _ m t' h
  obtain ⟨n, hread, hm, rfl⟩ := number_eq_ok_iff.1 h
  obtain ⟨-, rest, hrest, -⟩ := Numeral.valid_of_read hread
  have hlength : n.chars.length ≤ t.rest.length := by
    rw [hrest, List.length_append]
    exact Nat.le_add_right _ _
  refine ⟨⟨_, rfl⟩, number_eq_ok_iff.2 ⟨n, ?_, hm, (Scanner.followedBy_advance hlength).symm⟩⟩
  rw [Scanner.rest_followedBy, hu.read_append, hread]

theorem extends_numberOrZero (hu : Numeral.Clear u) :
    Extends lexicon u numberOrZero numberOrZero :=
  (extends_atNumber hu).bind fun _ =>
    Extends.ite ((extends_number hu).bind fun _ => extends_pure _) (extends_pure _)

theorem int_eq_ok_iff {i : Int64} {t' : Scanner} :
    int t = .ok i t' ↔ ∃ m, number t = .ok m t' ∧ m.integer = some i := by
  unfold int
  cases number t with
  | error e t₁ => simp
  | ok m t₁ =>
    cases hm : m.integer with
    | none => simp [fail, hm]
    | some i' => simp [hm, and_comm]

theorem extends_int (hu : Numeral.Clear u) : Extends lexicon u int int := by
  intro t hl i t' h
  obtain ⟨m, hm, hi⟩ := int_eq_ok_iff.1 h
  obtain ⟨hsteps, hread⟩ := extends_number hu t hl m t' hm
  exact ⟨hsteps, int_eq_ok_iff.2 ⟨m, hread, hi⟩⟩

theorem longest_append {words : List String} (hu : lexicon.Gap u)
    (hwords : ∀ word ∈ words, lexicon.Token word) (s : List Char) :
    longest words (s ++ u) = longest words s := by
  refine List.foldl_ext _ _ _ fun best word hword => ?_
  rw [isPrefixOf_append hu (hwords word hword)]

theorem prefix_of_longest {words : List String} {s : List Char} :
    ∀ word ∈ longest words s, word.toList <+: s := by
  have hnone : ∀ word ∈ (none : Option String), word.toList <+: s := nofun
  unfold longest
  refine List.foldlRecOn (motive := fun best : Option String => ∀ word ∈ best, word.toList <+: s)
    words _ hnone fun best hbest word _ => ?_
  split
  · exact hbest
  · next hword =>
    have hp : word.toList <+: s := by
      simp only [Bool.or_eq_true, Bool.not_eq_true', not_or, Bool.not_eq_false] at hword
      exact List.isPrefixOf_iff_prefix.1 hword.2
    have hsome : ∀ w ∈ some word, w.toList <+: s := by
      rintro w ⟨⟩
      exact hp
    split
    · split
      · exact hsome
      · exact hbest
    · exact hsome

theorem extends_consumeAny {words : List String} (hu : lexicon.Gap u)
    (hwords : ∀ word ∈ words, lexicon.Token word) :
    Extends lexicon u (consumeAny words false) (consumeAny words false) := by
  intro t _ a t' h
  have hsettled (t : Scanner) : t.settled false = t := rfl
  simp only [consumeAny, hsettled] at h ⊢
  rw [Scanner.rest_followedBy, longest_append hu hwords]
  cases hlongest : longest words t.rest with
  | none =>
    rw [hlongest] at h
    cases h
    exact ⟨⟨0, t.advance_zero.symm⟩, rfl⟩
  | some word =>
    rw [hlongest] at h
    cases h
    have hlength : word.length ≤ t.rest.length := by
      have hle := (prefix_of_longest word hlongest).length_le
      rwa [String.length_toList] at hle
    exact ⟨⟨_, rfl⟩, congrArg (EStateM.Result.ok _) (Scanner.followedBy_advance hlength)⟩

theorem extends_testAny {words : List String} (hu : lexicon.Gap u)
    (hwords : ∀ word ∈ words, lexicon.Token word) :
    Extends lexicon u (testAny words false) (testAny words false) := by
  intro t _ a t' h
  cases h
  refine ⟨⟨0, t.advance_zero.symm⟩, ?_⟩
  change EStateM.Result.ok (longest words (t.rest ++ u)) (t.followedBy u) = _
  rw [longest_append hu hwords]
  rfl

/-- What ends the reading of a range. -/
def rangeOf (min max : Option Int64) : Scan IntRange :=
  if min.isNone && max.isNone then fail "range needs at least one bound" else pure ⟨min, max⟩

theorem extends_range (hu : lexicon.Gap u) (hclear : Numeral.Clear u)
    (hdots : lexicon.Token "..") : Extends lexicon u range range := by
  have haccept : Extends lexicon u (accept ".." false) (accept ".." false) := by
    rintro t rfl
    exact extendsAt_accept hu hdots nofun
  have hint : Extends lexicon u (some <$> int) (some <$> int) := (extends_int hclear).map
  have hmax (min max : Option Int64) : Extends lexicon u (rangeOf min max) (rangeOf min max) :=
    extends_fail.ite (extends_pure _)
  have hmin (min : Option Int64) := haccept.bind fun found => Extends.ite (p := found = true)
    ((extends_atNumber hclear).bind fun found => Extends.ite (p := found = true)
      (hint.bind (hmax min)) ((extends_pure none).bind (hmax min)))
    (extends_pure ⟨min, min⟩)
  refine (extends_testAny hu (List.forall_mem_singleton.2 hdots)).bind fun dots => ?_
  exact Extends.ite ((extends_pure none).bind hmin) (hint.bind hmin)

end

/-! ## Lists -/

section

variable {item item' : Scan α} {close : String}

theorem ne_nil_of_accept {token : String} {found : Bool} {t' : Scanner} (hne : token.toList ≠ [])
    (h : accept token true t = .ok found t') (hrest : found = false → t'.rest ≠ []) :
    t.skipBlanks.rest ≠ [] := by
  have hsettled : t.settled true = t.skipBlanks := rfl
  rw [accept_eq hne, hsettled] at h
  split at h
  · next hp =>
    intro hnil
    rw [hnil, List.isPrefixOf_iff_prefix, List.prefix_nil] at hp
    exact hne hp
  · cases h
    exact hrest rfl

theorem extends_commaSeparated (hu : lexicon.Gap u) (hclose : lexicon.Token close)
    (hcomma : lexicon.Token ",") (hitem : Extends lexicon u item item') :
    Extends lexicon u (commaSeparated item close) (commaSeparated item' close) := by
  intro t hl values t' h
  have hfind {t t' : Scanner} {found : Bool} (hfound : accept "," true t = .ok found t')
      (hl : t.lexicon = lexicon) (hrest : found = false → t'.rest ≠ []) :=
    extendsAt_accept (u := u) (hl ▸ hu) (hl ▸ hcomma)
      (fun _ => ne_nil_of_accept (by decide) hfound hrest) found t' hfound
  rw [commaSeparated_eq_ok_iff] at h ⊢
  induction h with
  | @last t t₁ t₂ t' a ha hfound hend =>
    obtain ⟨⟨m, rfl⟩, ha'⟩ := hitem t hl a _ ha
    obtain ⟨⟨k, rfl⟩, hfound'⟩ := hfind hfound hl fun _ => hungry_expect hclose.ne_nil _ _ _ hend
    obtain ⟨⟨n, rfl⟩, hend'⟩ :=
      extends_expect hu hclose ((t.advance m).advance k) hl () t' hend
    refine ⟨⟨m + (k + n), ?_⟩, .last ha' hfound' hend'⟩
    rw [Scanner.advance_advance, Scanner.advance_advance]
  | @further t t₁ t₂ t' a values ha hfound hless hrest ih =>
    obtain ⟨⟨m, rfl⟩, ha'⟩ := hitem t hl a _ ha
    obtain ⟨⟨k, rfl⟩, hfound'⟩ := hfind hfound hl nofun
    obtain ⟨⟨n, rfl⟩, hrest'⟩ := ih hl
    refine ⟨⟨m + (k + n), ?_⟩, .further ha' hfound' ?_ hrest'⟩
    · rw [Scanner.advance_advance, Scanner.advance_advance]
    · rw [Scanner.rest_followedBy, Scanner.rest_followedBy, List.length_append,
        List.length_append]
      exact Nat.add_lt_add_right hless _

theorem hungry_commaSeparated (h : Hungry item) : Hungry (commaSeparated item close) := by
  intro t values t' hread
  cases commaSeparated_eq_ok_iff.1 hread with
  | last ha => exact h _ _ _ ha
  | further ha => exact h _ _ _ ha

theorem extends_itemsThrough (hu : lexicon.Gap u) (hclose : lexicon.Token close)
    (hcomma : lexicon.Token ",") (hitem : Extends lexicon u item item') (hungry : Hungry item) :
    Extends lexicon u (itemsThrough item close) (itemsThrough item' close) :=
  Extends.accept_bind hu hclose
    (fun _ => Extends.ite (extends_pure _)
      (extends_commaSeparated hu hclose hcomma hitem))
    (hungry_commaSeparated hungry)

end

/-! ## Where readers stop -/

section

variable {t' : Scanner} {s : String} {stops : List Char} {token : String}

/-- A text that was passed ends in no blank. -/
theorem solid_advance {text rest : List Char} (h : t.rest = text ++ rest) (hne : text ≠ [])
    (hlast : ∀ c ∈ text.getLast?, c ∉ lexicon.whitespace) :
    lexicon.Solid (t.advance text.length).consumed := by
  have hconsumed : (t.advance text.length).consumed = text.reverse ++ t.consumed := by
    simp [Scanner.advance, h]
  rw [hconsumed]
  refine Lexicon.Solid.append ?_ (by simpa using hne) t.consumed
  rw [Lexicon.Solid, List.head?_reverse]
  exact hlast

theorem solid_of_quoted (hquotes : ∀ c ∈ t.lexicon.quotes, c ∉ t.lexicon.whitespace)
    (h : quoted t = .ok s t') : t.lexicon.Solid t'.consumed := by
  obtain ⟨quote, body, n, hrest, hquote, hclose, rfl⟩ := quoted_eq_ok_iff.1 h
  obtain ⟨inner, rest, rfl, rfl, -⟩ := closeQuote_split hclose
  have hsplit : t.rest = (quote :: inner ++ [quote]) ++ rest := by
    rw [hrest]
    simp
  have hlast : ∀ c ∈ (quote :: inner ++ [quote]).getLast?, c ∉ t.lexicon.whitespace := by
    intro c hc
    rw [List.getLast?_concat] at hc
    cases hc
    exact hquotes quote hquote
  simpa using solid_advance hsplit (by simp) hlast

theorem solid_of_unquoted (h : unquoted stops t = .ok s t') : t.lexicon.Solid t'.consumed := by
  obtain ⟨rest, hrest, hne, hchars, -, rfl⟩ := unquoted_eq_ok_iff.1 h
  exact solid_advance hrest hne fun c hc => (hchars c (List.mem_of_getLast? hc)).1

theorem solid_of_string (hquotes : ∀ c ∈ t.lexicon.quotes, c ∉ t.lexicon.whitespace)
    (h : string stops t = .ok s t') : t.lexicon.Solid t'.consumed := by
  rw [string_eq] at h
  split at h
  · exact solid_of_quoted (t := t.skipBlanks) hquotes h
  · exact solid_of_unquoted (t := t.skipBlanks) h

theorem solid_of_accept {skip : Bool} (htoken : lexicon.Token token)
    (h : accept token skip t = .ok true t') : lexicon.Solid t'.consumed := by
  rw [accept_eq htoken.ne_nil] at h
  split at h
  · next hp =>
    cases h
    obtain ⟨rest, hrest⟩ := List.isPrefixOf_iff_prefix.1 hp
    rw [← String.length_toList]
    exact solid_advance hrest.symm htoken.ne_nil fun c hc =>
      htoken.chars c (List.mem_of_getLast? hc)
  · cases h

theorem solid_of_expect (htoken : lexicon.Token token) (h : expect token true t = .ok () t') :
    lexicon.Solid t'.consumed := by
  obtain ⟨found, t₁, hfound, h₁⟩ := bind_eq_ok_iff.1 h
  cases found with
  | true => cases h₁; exact solid_of_accept htoken hfound
  | false => cases h₁

theorem solid_of_separated {item : Scan α} {close : String} {values : List α}
    (hclose : lexicon.Token close) (h : Separated item close t values t') :
    lexicon.Solid t'.consumed := by
  induction h with
  | last _ _ hend => exact solid_of_expect hclose hend
  | further _ _ _ _ ih => exact ih

theorem solid_of_itemsThrough {item : Scan α} {close : String} {values : List α}
    (hclose : lexicon.Token close) (h : itemsThrough item close t = .ok values t') :
    lexicon.Solid t'.consumed := by
  obtain ⟨closed, t₁, hclosed, h₁⟩ := bind_eq_ok_iff.1 h
  cases closed with
  | true => cases h₁; exact solid_of_accept hclose hclosed
  | false => exact solid_of_separated hclose (commaSeparated_eq_ok_iff.1 h₁)

end

end Scan

end CommandChain
