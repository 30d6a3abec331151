import CommandChain.Value.Shape
import Mathlib.Data.List.Forall2

/-!
# Equal values

Equality of values is no equality of terms: `0.0` and `-0.0` are equal floats.
`Differs` says what two equal values may differ in, and no shape tells them
apart (`matchesValue_congr`).
-/

namespace CommandChain

/-- Same key, same inversion, equal values. -/
structure Entry.Alike (e' e : Entry ArgValue) : Prop where
  key : e'.key = e.key
  inverted : e'.inverted = e.inverted
  value : e'.value == e.value

namespace ArgValue

theorem beqEntries_iff {entries' entries : List (Entry ArgValue)} :
    beqEntries entries' entries ↔ List.Forall₂ Entry.Alike entries' entries := by
  induction entries' generalizing entries with
  | nil => cases entries <;> simp [beqEntries]
  | cons e' entries' ih =>
    cases entries with
    | nil => simp [beqEntries]
    | cons e entries =>
      obtain ⟨key', inverted', value'⟩ := e'
      obtain ⟨key, inverted, value⟩ := e
      simp only [beqEntries, Bool.and_eq_true, beq_iff_eq, List.forall₂_cons, ih]
      constructor
      · rintro ⟨⟨⟨hkey, hinverted⟩, hvalue⟩, hrest⟩
        exact ⟨⟨hkey, hinverted, hvalue⟩, hrest⟩
      · rintro ⟨⟨hkey, hinverted, hvalue⟩, hrest⟩
        exact ⟨⟨⟨hkey, hinverted⟩, hvalue⟩, hrest⟩

theorem beqItems_iff {items' items : List ArgValue} :
    beqItems items' items ↔ List.Forall₂ (fun v' v => v' == v) items' items := by
  induction items' generalizing items with
  | nil => cases items <;> simp [beqItems]
  | cons v' items' ih =>
    cases items with
    | nil => simp [beqItems]
    | cons v items =>
      simp only [beqItems, Bool.and_eq_true, List.forall₂_cons, ih]
      exact Iff.rfl

/-- What two equal values may differ in: their numbers with a fractional part. -/
inductive Differs : ArgValue → ArgValue → Prop where
  | same (v : ArgValue) : Differs v v
  | float (x' x : Float) : Differs (float x') (float x)
  | relative (x' x : Float) : Differs (relative x') (relative x)
  | map {entries' entries : List (Entry ArgValue)} :
    List.Forall₂ Entry.Alike entries' entries → Differs (map entries') (map entries)
  | list {items' items : List ArgValue} :
    List.Forall₂ (fun v' v => v' == v) items' items → Differs (list items') (list items)

theorem differs_of_beq {v' v : ArgValue} (h : v' == v) : Differs v' v := by
  have h : v'.beq v = true := h
  cases v' <;> cases v <;> simp only [ArgValue.beq, beq_iff_eq, Bool.false_eq_true] at h
  case bool.bool => rw [h]; exact .same _
  case int.int => rw [h]; exact .same _
  case range.range => rw [h]; exact .same _
  case text.text => rw [h]; exact .same _
  case float.float => exact .float _ _
  case relative.relative => exact .relative _ _
  case map.map => exact .map (beqEntries_iff.1 h)
  case list.list => exact .list (beqItems_iff.1 h)

end ArgValue

namespace Shape

/-- What is asked of each element of one list is asked of each of the other. -/
theorem all_congr {α : Type} {R : α → α → Prop} {p : α → Bool}
    (hp : ∀ a' a, R a' a → p a' = p a) {l' l : List α} (h : List.Forall₂ R l' l) :
    l'.all p = l.all p := by
  induction h with
  | nil => rfl
  | cons ha _ ih => rw [List.all_cons, List.all_cons, hp _ _ ha, ih]

open ArgValue (differs_of_beq)

mutual

/-- No shape tells equal values apart. -/
theorem matchesValue_congr : (shape : Shape) → {v' v : ArgValue} → v' == v →
    shape.matchesValue v' = shape.matchesValue v
  | union shapes, _, _, h => matchesSome_congr shapes h
  | mapOf shape, _, _, h => by
    cases differs_of_beq h with
    | map hentries => exact all_congr (fun _ _ he => shape.matchesValue_congr he.value) hentries
    | same | float | relative | list => rfl
  | record fields, _, _, h => by
    cases differs_of_beq h with
    | map hentries =>
      refine all_congr (fun e' e he => ?_) hentries
      rw [he.inverted, he.key, matchesField_congr fields e.key he.value]
    | same | float | relative | list => rfl
  | listOf shape, _, _, h => by
    cases differs_of_beq h with
    | list hitems => exact all_congr (fun _ _ hv => shape.matchesValue_congr hv) hitems
    | same | float | relative | map => rfl
  | bool, _, _, h | int, _, _, h | number, _, _, h | range, _, _, h | relative, _, _, h
  | text, _, _, h | oneOf _, _, _, h | intOneOf _, _, _, h | any, _, _, h => by
    cases differs_of_beq h <;> rfl

theorem matchesSome_congr : (shapes : List Shape) → {v' v : ArgValue} → v' == v →
    matchesSome shapes v' = matchesSome shapes v
  | [], _, _, _ => rfl
  | shape :: rest, _, _, h => by
    rw [matchesSome, matchesSome, shape.matchesValue_congr h, matchesSome_congr rest h]

theorem matchesField_congr : (fields : List (String × Shape)) → (key : String) →
    {v' v : ArgValue} → v' == v → matchesField fields key v' = matchesField fields key v
  | [], _, _, _, _ => rfl
  | (name, shape) :: rest, key, _, _, h => by
    rw [matchesField, matchesField, shape.matchesValue_congr h, matchesField_congr rest key h]

end

end Shape

end CommandChain
