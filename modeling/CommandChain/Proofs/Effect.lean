import CommandChain.Effect
import Mathlib.Data.List.Forall2

/-!
# Results of effects

An effect ends in a value or an error, and leaves a state either way. One made of two
succeeds exactly if both do, the second from the state that the first left
(`bind_eq_ok_iff`).

`raising` changes the errors of an effect and nothing else, so it goes through every
sequence of effects. `Raises` says which errors an effect may have: those of its parts
(`Raises.bind`).
-/

namespace CommandChain

section

variable {ε σ α β : Type} {x : EStateM ε σ α} {s s' t : σ} {a : α} {b : β}

theorem bind_of_ok {f : α → EStateM ε σ β} (h : x s = .ok a s') : (x >>= f) s = f a s' := by
  simp only [bind, EStateM.bind, h]

theorem bind_of_error {f : α → EStateM ε σ β} {e : ε} (h : x s = .error e s') :
    (x >>= f) s = .error e s' := by
  simp only [bind, EStateM.bind, h]

theorem bind_eq_ok_iff {f : α → EStateM ε σ β} :
    (x >>= f) s = .ok b t ↔ ∃ a s', x s = .ok a s' ∧ f a s' = .ok b t := by
  constructor
  · intro h
    cases hx : x s with
    | ok a s' => rw [bind_of_ok hx] at h; exact ⟨a, s', rfl, h⟩
    | error e s' => simp only [bind, EStateM.bind, hx] at h; cases h
  · rintro ⟨a, s', hx, hf⟩
    rw [bind_of_ok hx, hf]

theorem exists_of_bind_ok {r : Except ε α} {f : α → Except ε β} (h : r >>= f = .ok b) :
    ∃ a, r = .ok a ∧ f a = .ok b := by
  cases r with
  | ok a => exact ⟨a, rfl, h⟩
  | error e => cases h

theorem exists_ok_of_any {r : Except ε α} {p : α → Bool} (h : r.toOption.any p) :
    ∃ a, r = .ok a ∧ p a := by
  cases r with
  | ok a => exact ⟨a, rfl, h⟩
  | error e => cases h

theorem map_of_ok {g : α → β} (h : x s = .ok a s') : (g <$> x) s = .ok (g a) s' := by
  simp only [Functor.map, EStateM.map, h]

theorem map_eq_ok_iff {g : α → β} :
    (g <$> x) s = .ok b t ↔ ∃ a, x s = .ok a t ∧ g a = b := by
  constructor
  · intro h
    cases hx : x s with
    | ok a s' => rw [map_of_ok hx] at h; cases h; exact ⟨a, rfl, rfl⟩
    | error e s' => simp only [Functor.map, EStateM.map, hx] at h; cases h
  · rintro ⟨a, hx, rfl⟩
    exact map_of_ok hx

theorem mapM_of_ok {f : α → Except ε β} {g : α → β} {l : List α}
    (h : ∀ a ∈ l, f a = .ok (g a)) : l.mapM f = .ok (l.map g) := by
  induction l with
  | nil => rfl
  | cons a l ih =>
    obtain ⟨ha, hl⟩ := List.forall_mem_cons.1 h
    rw [List.mapM_cons, ha, ih hl]
    rfl

theorem length_of_mapM_ok {f : α → Except ε β} {l : List α} {bs : List β}
    (h : l.mapM f = .ok bs) : l.length = bs.length := by
  induction l generalizing bs with
  | nil => cases h; rfl
  | cons a l ih =>
    rw [List.mapM_cons] at h
    obtain ⟨b, _, h⟩ := exists_of_bind_ok h
    obtain ⟨bs', hbs, h⟩ := exists_of_bind_ok h
    cases h
    rw [List.length_cons, List.length_cons, ih hbs]

/-- Effects that give one item each and leave the state as it is. -/
theorem exists_mapM_of_singleton {f : α → EStateM ε σ (List β)} {l : List α} {R : α → β → Prop}
    (h : ∀ a ∈ l, ∃ b, f a s = .ok [b] s ∧ R a b) :
    ∃ bs, l.mapM f s = .ok bs s ∧ List.Forall₂ R l bs.flatten := by
  induction l with
  | nil => exact ⟨[], rfl, .nil⟩
  | cons a l ih =>
    obtain ⟨⟨b, hb, hab⟩, hl⟩ := List.forall_mem_cons.1 h
    obtain ⟨bs, hbs, hall⟩ := ih hl
    refine ⟨[b] :: bs, ?_, .cons hab hall⟩
    rw [List.mapM_cons, bind_of_ok hb, bind_of_ok hbs]
    rfl

end

section

variable {ε ε' ε'' σ τ α β : Type}

/-- The state that was left. -/
def stateLeft : EStateM.Result ε σ α → σ
  | .ok _ s => s
  | .error _ s => s

def value? : EStateM.Result ε σ α → Option α
  | .ok a _ => some a
  | .error _ _ => none

def error? : EStateM.Result ε σ α → Option ε
  | .ok _ _ => none
  | .error e _ => some e

/-- The result with another state. -/
def mapState (f : σ → τ) : EStateM.Result ε σ α → EStateM.Result ε τ α
  | .ok a s => .ok a (f s)
  | .error e s => .error e (f s)

@[simp] theorem stateLeft_mapState (f : σ → τ) (r : EStateM.Result ε σ α) :
    stateLeft (mapState f r) = f (stateLeft r) := by
  cases r <;> rfl

@[simp] theorem error?_mapState (f : σ → τ) (r : EStateM.Result ε σ α) :
    error? (mapState f r) = error? r := by
  cases r <;> rfl

@[simp] theorem mapState_mapState {ρ : Type} (f : σ → τ) (g : τ → ρ) (r : EStateM.Result ε σ α) :
    mapState g (mapState f r) = mapState (g ∘ f) r := by
  cases r <;> rfl

theorem mapState_id (r : EStateM.Result ε σ α) : mapState id r = r := by
  cases r <;> rfl

/-- The result with another error. -/
def mapError (f : ε → ε') : EStateM.Result ε σ α → EStateM.Result ε' σ α
  | .ok a s => .ok a s
  | .error e s => .error (f e) s

@[simp] theorem value?_mapError (f : ε → ε') (r : EStateM.Result ε σ α) :
    value? (mapError f r) = value? r := by
  cases r <;> rfl

/-- The effect with other errors. -/
def raising (f : ε → ε') (x : EStateM ε σ α) : EStateM ε' σ α := fun s => mapError f (x s)

theorem raising_id (x : EStateM ε σ α) : raising id x = x := by
  funext s
  simp only [raising]
  cases x s <;> rfl

theorem raising_raising (f : ε → ε') (g : ε' → ε'') (x : EStateM ε σ α) :
    raising g (raising f x) = raising (g ∘ f) x := by
  funext s
  simp only [raising]
  cases x s <;> rfl

theorem raising_bind (f : ε → ε') (x : EStateM ε σ α) (k : α → EStateM ε σ β) :
    raising f (x >>= k) = raising f x >>= fun a => raising f (k a) := by
  funext s
  simp only [raising, bind, EStateM.bind]
  cases x s <;> rfl

theorem raising_foldlM (f : ε → ε') (step : β → α → EStateM ε σ β) (init : β) (l : List α) :
    raising f (l.foldlM step init) = l.foldlM (fun b a => raising f (step b a)) init := by
  induction l generalizing init with
  | nil => rfl
  | cons a l ih => simp only [List.foldlM_cons, raising_bind, ih]

end

namespace Effect

variable {σ τ α β : Type}

/-- `x'` does to the image of every state what `x` does to the state. -/
def Projects (f : σ → τ) (x : Effect σ α) (x' : Effect τ α) : Prop :=
  ∀ s, x' (f s) = mapState f (x s)

theorem Projects.bind {f : σ → τ} {x : Effect σ α} {x' : Effect τ α} {k : α → Effect σ β}
    {k' : α → Effect τ β} (hx : Projects f x x') (hk : ∀ a, Projects f (k a) (k' a)) :
    Projects f (x >>= k) (x' >>= k') := by
  intro s
  simp only [Bind.bind, EStateM.bind, hx s]
  cases x s with
  | ok a t => exact hk a t
  | error e t => rfl

theorem ensuring_of_mapState {f : σ → τ} {x : Effect σ α} {x' : Effect τ α}
    {cleanup : Effect σ Unit} {cleanup' : Effect τ Unit} {s : σ}
    (hx : x' (f s) = mapState f (x s)) (hc : Projects f cleanup cleanup') :
    ensuring x' cleanup' (f s) = mapState f (ensuring x cleanup s) := by
  simp only [ensuring, hx]
  cases x s with
  | ok a t => simp only [mapState, hc t]; cases cleanup t <;> rfl
  | error e t => simp only [mapState, hc t]; cases cleanup t <;> rfl

theorem Projects.ensuring {f : σ → τ} {x : Effect σ α} {x' : Effect τ α}
    {cleanup : Effect σ Unit} {cleanup' : Effect τ Unit} (hx : Projects f x x')
    (hc : Projects f cleanup cleanup') :
    Projects f (ensuring x cleanup) (Effect.ensuring x' cleanup') :=
  fun s => ensuring_of_mapState (hx s) hc

theorem onFirst_eq (x : Effect σ α) (s : σ) (t : τ) : onFirst x (s, t) = mapState (·, t) (x s) := by
  simp only [onFirst]
  cases x s <;> rfl

theorem ensuring_of_ok {x : Effect σ α} {cleanup : Effect σ Unit} {s t u : σ} {a : α}
    (hx : x s = .ok a t) (hc : cleanup t = .ok () u) : ensuring x cleanup s = .ok a u := by
  simp only [ensuring, hx, hc]

theorem ensuring_of_error {x : Effect σ α} {cleanup : Effect σ Unit} {s t u : σ} {e : Error}
    (hx : x s = .error e t) (hc : cleanup t = .ok () u) : ensuring x cleanup s = .error e u := by
  simp only [ensuring, hx, hc]

/-- The cleanup runs from the state left. -/
theorem stateLeft_ensuring (x : Effect σ α) (cleanup : Effect σ Unit) (s : σ) :
    stateLeft (ensuring x cleanup s) = stateLeft (cleanup (stateLeft (x s))) := by
  simp only [ensuring]
  cases x s with
  | ok a t => simp only [stateLeft]; cases cleanup t <;> rfl
  | error e t => simp only [stateLeft]; cases cleanup t <;> rfl

theorem error?_ensuring (x : Effect σ α) (cleanup : Effect σ Unit) (s : σ) :
    error? (ensuring x cleanup s) = (error? (x s) <|> error? (cleanup (stateLeft (x s)))) := by
  simp only [ensuring]
  cases x s with
  | ok a t => simp only [stateLeft]; cases cleanup t <;> rfl
  | error e t => simp only [stateLeft]; cases cleanup t <;> rfl

end Effect

theorem Effect.ofExcept_ok {σ α : Type} {r : Except Error α} {s t : σ} {a : α}
    (h : ofExcept r s = .ok a t) : r = .ok a := by
  cases r with
  | ok a' => cases h; rfl
  | error e => cases h

/-! ## Errors raised -/

section

variable {α β σ : Type} {P : Error → Prop}

/-- Every error is one of `P`. -/
def Raises (P : Error → Prop) (x : Except Error α) : Prop := ∀ e, x = .error e → P e

theorem raises_ok (a : α) : Raises P (.ok a) := nofun

theorem raises_error {e : Error} (h : P e) : Raises P (.error e : Except Error α) := by
  rintro _ ⟨⟩
  exact h

theorem Raises.bind {x : Except Error α} {f : α → Except Error β} (hx : Raises P x)
    (hf : ∀ a, Raises P (f a)) : Raises P (x >>= f) := by
  intro e h
  cases x with
  | error e' => cases h; exact hx e rfl
  | ok a => exact hf a e h

theorem raises_mapM {f : α → Except Error β} {l : List α} (hf : ∀ a ∈ l, Raises P (f a)) :
    Raises P (l.mapM f) := by
  induction l with
  | nil => exact raises_ok []
  | cons a l ih =>
    obtain ⟨ha, hl⟩ := List.forall_mem_cons.1 hf
    rw [List.mapM_cons]
    exact ha.bind fun b => (ih hl).bind fun bs => raises_ok (b :: bs)

namespace Effect

/-- Every error is one of `P`, from whatever state. -/
def Raises (P : Error → Prop) (x : Effect σ α) : Prop := ∀ s e t, x s = .error e t → P e

theorem raises_pure (a : α) : (pure a : Effect σ α).Raises P := nofun

theorem raises_ofExcept {x : Except Error α} (h : CommandChain.Raises P x) :
    (ofExcept x : Effect σ α).Raises P := by
  intro s e t he
  cases x with
  | error e' => cases he; exact h e rfl
  | ok a => cases he

/-- The second effect goes on from a value that the first has given. -/
theorem Raises.bind {x : Effect σ α} {f : α → Effect σ β} (hx : x.Raises P)
    (hf : ∀ a, (∃ s t, x s = .ok a t) → (f a).Raises P) : (x >>= f).Raises P := by
  intro s e t h
  cases hs : x s with
  | error e' t' => rw [bind_of_error hs] at h; cases h; exact hx s e t hs
  | ok a t' => rw [bind_of_ok hs] at h; exact hf a ⟨s, t', hs⟩ t' e t h

end Effect

end

end CommandChain
