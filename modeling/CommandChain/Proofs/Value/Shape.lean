import CommandChain.Value.Shape

/-!
# Values that fit a shape

`Fits` says constructor by constructor which values have a shape, and
`matchesValue_iff` that these are the values accepted. The cases follow the nesting of
shapes: a union and a record hold shapes in a list.
-/

namespace CommandChain.Shape

mutual

/-- The value has the shape. -/
inductive Fits : Shape → ArgValue → Prop where
  | any (v : ArgValue) : Fits .any v
  | bool (b : Bool) : Fits .bool (.bool b)
  | int (n : Int64) : Fits .int (.int n)
  | wholeNumber (n : Int64) : Fits .number (.int n)
  | number (x : Float) : Fits .number (.float x)
  | exactly (n : Int64) : Fits .range (.int n)
  | range (r : IntRange) : Fits .range (.range r)
  | relative (offset : Float) : Fits .relative (.relative offset)
  | text (s : String) : Fits .text (.text s)
  | oneOf {words : List String} {s : String} : s ∈ words → Fits (.oneOf words) (.text s)
  | intOneOf {ints : List Int64} {n : Int64} : n ∈ ints → Fits (.intOneOf ints) (.int n)
  | union {shapes : List Shape} {shape : Shape} {v : ArgValue} :
    shape ∈ shapes → Fits shape v → Fits (.union shapes) v
  | mapOf {shape : Shape} {entries : List (Entry ArgValue)} :
    (∀ e ∈ entries, Fits shape e.value) → Fits (.mapOf shape) (.map entries)
  | record {fields : List (String × Shape)} {entries : List (Entry ArgValue)} :
    (∀ e ∈ entries, e.inverted = false) → (∀ e ∈ entries, FitsField fields e.key e.value) →
      Fits (.record fields) (.map entries)
  | listOf {item : Shape} {items : List ArgValue} :
    (∀ v ∈ items, Fits item v) → Fits (.listOf item) (.list items)

/-- The value has the shape of some field of that name. -/
inductive FitsField : List (String × Shape) → String → ArgValue → Prop where
  | intro {fields : List (String × Shape)} {key : String} {shape : Shape} {v : ArgValue} :
    (key, shape) ∈ fields → Fits shape v → FitsField fields key v

end

theorem fitsField_cons_iff {name key : String} {shape : Shape} {rest : List (String × Shape)}
    {v : ArgValue} :
    FitsField ((name, shape) :: rest) key v ↔ name = key ∧ Fits shape v ∨ FitsField rest key v := by
  constructor
  · rintro ⟨hm, hv⟩
    rcases List.mem_cons.1 hm with heq | hm
    · cases heq; exact .inl ⟨rfl, hv⟩
    · exact .inr ⟨hm, hv⟩
  · rintro (⟨rfl, hv⟩ | ⟨hm, hv⟩)
    · exact ⟨List.mem_cons_self, hv⟩
    · exact ⟨.tail _ hm, hv⟩

mutual

theorem matchesValue_iff (shape : Shape) (v : ArgValue) :
    shape.matchesValue v ↔ Fits shape v := by
  cases shape with
  | any => exact iff_of_true rfl (.any v)
  | bool =>
    cases v with
    | bool b => exact iff_of_true rfl (.bool b)
    | _ => exact iff_of_false nofun nofun
  | int =>
    cases v with
    | int n => exact iff_of_true rfl (.int n)
    | _ => exact iff_of_false nofun nofun
  | number =>
    cases v with
    | int n => exact iff_of_true rfl (.wholeNumber n)
    | float x => exact iff_of_true rfl (.number x)
    | _ => exact iff_of_false nofun nofun
  | range =>
    cases v with
    | int n => exact iff_of_true rfl (.exactly n)
    | range r => exact iff_of_true rfl (.range r)
    | _ => exact iff_of_false nofun nofun
  | relative =>
    cases v with
    | relative offset => exact iff_of_true rfl (.relative offset)
    | _ => exact iff_of_false nofun nofun
  | text =>
    cases v with
    | text s => exact iff_of_true rfl (.text s)
    | _ => exact iff_of_false nofun nofun
  | oneOf words =>
    cases v with
    | text s =>
      rw [matchesValue, List.contains_iff_mem]
      exact ⟨.oneOf, fun | .oneOf h => h⟩
    | _ => exact iff_of_false nofun nofun
  | intOneOf ints =>
    cases v with
    | int n =>
      rw [matchesValue, List.contains_iff_mem]
      exact ⟨.intOneOf, fun | .intOneOf h => h⟩
    | _ => exact iff_of_false nofun nofun
  | union shapes =>
    rw [matchesValue, matchesSome_iff shapes v]
    exact ⟨fun ⟨_, hm, hv⟩ => .union hm hv, fun | .union hm hv => ⟨_, hm, hv⟩⟩
  | mapOf shape =>
    cases v with
    | map entries =>
      rw [matchesValue, List.all_eq_true]
      simp only [matchesValue_iff shape]
      exact ⟨.mapOf, fun | .mapOf h => h⟩
    | _ => exact iff_of_false nofun nofun
  | record fields =>
    cases v with
    | map entries =>
      rw [matchesValue, List.all_eq_true]
      simp only [Bool.and_eq_true, Bool.not_eq_true', matchesField_iff fields]
      exact ⟨fun h => .record (fun e he => (h e he).1) fun e he => (h e he).2,
        fun | .record hi hf => fun e he => ⟨hi e he, hf e he⟩⟩
    | _ => exact iff_of_false nofun nofun
  | listOf item =>
    cases v with
    | list items =>
      rw [matchesValue, List.all_eq_true]
      simp only [matchesValue_iff item]
      exact ⟨.listOf, fun | .listOf h => h⟩
    | _ => exact iff_of_false nofun nofun

theorem matchesSome_iff (shapes : List Shape) (v : ArgValue) :
    matchesSome shapes v ↔ ∃ shape ∈ shapes, Fits shape v := by
  cases shapes with
  | nil => exact iff_of_false nofun fun ⟨_, hm, _⟩ => nomatch hm
  | cons shape rest =>
    rw [matchesSome, Bool.or_eq_true, matchesValue_iff shape v, matchesSome_iff rest v]
    constructor
    · rintro (hv | ⟨shape', hm, hv⟩)
      · exact ⟨shape, List.mem_cons_self, hv⟩
      · exact ⟨shape', .tail _ hm, hv⟩
    · rintro ⟨shape', hm, hv⟩
      rcases List.mem_cons.1 hm with rfl | hm
      · exact .inl hv
      · exact .inr ⟨shape', hm, hv⟩

theorem matchesField_iff (fields : List (String × Shape)) (key : String) (v : ArgValue) :
    matchesField fields key v ↔ FitsField fields key v := by
  cases fields with
  | nil => exact iff_of_false nofun fun ⟨hm, _⟩ => nomatch hm
  | cons field rest =>
    obtain ⟨name, shape⟩ := field
    rw [matchesField, Bool.or_eq_true, Bool.and_eq_true, beq_iff_eq, matchesValue_iff shape v,
      matchesField_iff rest key v, fitsField_cons_iff]

end

end CommandChain.Shape
