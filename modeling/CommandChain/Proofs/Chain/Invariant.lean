import CommandChain.Proofs.Chain.Visit
import CommandChain.Proofs.Effect

/-!
# What a visit keeps

A visit changes a world by the runs of its action only. So whatever every run keeps,
the visit keeps: `keeps_visit`. And two visits whose worlds look alike to subcommands
make the same contexts, for as long as the runs of their actions keep the worlds
alike: `lockstep_visit`. In particular notes beside the world do not change a visit:
`visit_noting`.
-/

namespace CommandChain

variable {W V : Type}

/-! ## One visit -/

/-- `I n` holds of the world after `n` runs. An error leaves such a world, or if a run
failed, a world of which `E` holds. -/
def Keeps (I : Nat → W → Prop) (E : Error → W → Prop) (n : Nat) :
    EStateM.Result Error (W × Random) Nat → Prop
  | .ok m (w, _) => I (n + m) w
  | .error e (w, _) => (∃ m, I m w) ∨ E e w

section

variable [WorldView W] {action : Context → Effect W Unit} {I : Nat → W → Prop}
  {E : Error → W → Prop}

theorem keeps_visitEach {rest : List Subcommand} {index : Nat}
    (ih : ∀ c n w random, I n w → Keeps I E n (visit action rest index c (w, random)))
    (children : List Context) (base count : Nat) (w : W) (random : Random)
    (h : I (base + count) w) :
    Keeps I E base (visitEach action rest index count children (w, random)) := by
  induction children generalizing count w random with
  | nil => exact h
  | cons child children ihc =>
    have hc := ih child (base + count) w random h
    rw [visitEach_cons]
    cases hv : visit action rest index child (w, random) with
    | ok m state =>
      rw [hv] at hc
      exact ihc (count + m) state.1 state.2 (Nat.add_assoc base count m ▸ hc)
    | error e state => rw [hv] at hc; exact hc

/-- What every run of the action keeps, a visit keeps. -/
theorem keeps_visit (hok : ∀ n c w w', I n w → action c w = .ok () w' → I (n + 1) w')
    (herr : ∀ n c w e w', I n w → action c w = .error e w' → E e w')
    (rest : List Subcommand) (index : Nat) (c : Context) (n : Nat) (w : W) (random : Random)
    (h : I n w) : Keeps I E n (visit action rest index c (w, random)) := by
  induction rest generalizing index c n w random with
  | nil =>
    rw [visit_nil]
    cases ha : action c w with
    | ok u w' => exact hok n c w w' h ha
    | error e w' => exact .inr (herr n c w e w' h ha)
  | cons s rest ih =>
    rw [visit_cons]
    cases s.applyAt index w c random with
    | ok children random' =>
      exact keeps_visitEach (fun c n w r hn => ih (index + 1) c n w r hn) children n 0 w random' h
    | error e random' => exact .inl ⟨n, h⟩

end

/-! ## Two visits -/

/-- The worlds of two visits stay related by `R`, with the same contexts and the same
random numbers. Only if a run fails in the first and not in the second, the worlds left
are related by `S`. -/
def Lockstep (R : W → V → Prop) (S : Error → W → V → Prop) :
    EStateM.Result Error (W × Random) Nat → EStateM.Result Error (V × Random) Nat → Prop
  | .ok m (w, r), .ok n (v, r') => m = n ∧ r = r' ∧ R w v
  | .ok .., .error .. => False
  | .error e (w, _), .ok _ (v, _) => S e w v
  | .error e (w, r), .error e' (v, r') => (e = e' ∧ r = r' ∧ R w v) ∨ S e w v

/-- The two actions keep worlds related. -/
structure Parallel (action : Context → Effect W Unit) (action' : Context → Effect V Unit)
    (R : W → V → Prop) (S : Error → W → V → Prop) : Prop where
  ok : ∀ c w v w', R w v → action c w = .ok () w' → ∃ v', action' c v = .ok () v' ∧ R w' v'
  error : ∀ c w v e w', R w v → action c w = .error e w' →
    (∃ v', action' c v = .error e v' ∧ R w' v') ∨ ∃ v', action' c v = .ok () v' ∧ S e w' v'
  /-- What the second does alone makes no difference. -/
  later_ok : ∀ c e w v v', S e w v → action' c v = .ok () v' → S e w v'
  later_error : ∀ c e w v e' v', S e w v → action' c v = .error e' v' → S e w v'

section

variable [WorldView W] [WorldView V] {action : Context → Effect W Unit}
  {action' : Context → Effect V Unit} {R : W → V → Prop} {S : Error → W → V → Prop}

omit [WorldView W] in
/-- The second visit goes on alone. -/
theorem Parallel.alone (h : Parallel action action' R S) {rest : List Subcommand} {index : Nat}
    {children : List Context} {count : Nat} {e : Error} {w : W} {v : V} (hs : S e w v)
    (random random' : Random) :
    Lockstep R S (.error e (w, random))
      (visitEach action' rest index count children (v, random')) := by
  have hk : Keeps (fun _ v => S e w v) (fun _ v => S e w v) 0
      (visitEach action' rest index count children (v, random')) :=
    keeps_visitEach
      (fun c n v r hv => keeps_visit (fun _ c v v' => h.later_ok c e w v v')
        (fun _ c v e' v' => h.later_error c e w v e' v') rest index c n v r hv)
      children 0 count v random' hs
  cases hv : visitEach action' rest index count children (v, random') with
  | ok n state => rw [hv] at hk; exact hk
  | error e' state =>
    rw [hv] at hk
    rcases hk with ⟨_, hk⟩ | hk
    · exact .inr hk
    · exact .inr hk

theorem Parallel.each (h : Parallel action action' R S) {rest : List Subcommand} {index : Nat}
    (ih : ∀ c w v random, R w v →
      Lockstep R S (visit action rest index c (w, random)) (visit action' rest index c (v, random)))
    (children : List Context) (count : Nat) (w : W) (v : V) (random : Random) (hr : R w v) :
    Lockstep R S (visitEach action rest index count children (w, random))
      (visitEach action' rest index count children (v, random)) := by
  induction children generalizing count w v random with
  | nil => exact ⟨rfl, rfl, hr⟩
  | cons child children ihc =>
    have hc := ih child w v random hr
    rw [visitEach_cons, visitEach_cons]
    cases hw : visit action rest index child (w, random) with
    | ok m state =>
      cases hv : visit action' rest index child (v, random) with
      | ok n state' =>
        rw [hw, hv] at hc
        obtain ⟨rfl, hrandom, hr'⟩ := hc
        obtain ⟨w', r⟩ := state
        obtain ⟨v', r'⟩ := state'
        obtain rfl : r = r' := hrandom
        exact ihc (count + m) w' v' r hr'
      | error e' state' => rw [hw, hv] at hc; exact hc.elim
    | error e state =>
      cases hv : visit action' rest index child (v, random) with
      | ok n state' => rw [hw, hv] at hc; exact h.alone hc state.2 state'.2
      | error e' state' => rw [hw, hv] at hc; exact hc

/-- Two visits go in lockstep if related worlds look alike to subcommands and the
actions keep worlds related. -/
theorem lockstep_visit (h : Parallel action action' R S)
    (hview : ∀ (s : Subcommand) index c w v, R w v → s.applyAt index w c = s.applyAt index v c)
    (rest : List Subcommand) (index : Nat) (c : Context) (w : W) (v : V) (random : Random)
    (hr : R w v) :
    Lockstep R S (visit action rest index c (w, random))
      (visit action' rest index c (v, random)) := by
  induction rest generalizing index c w v random with
  | nil =>
    rw [visit_nil, visit_nil]
    cases ha : action c w with
    | ok u w' =>
      obtain ⟨v', hv, hr'⟩ := h.ok c w v w' hr ha
      rw [hv]
      exact ⟨rfl, rfl, hr'⟩
    | error e w' =>
      rcases h.error c w v e w' hr ha with ⟨v', hv, hr'⟩ | ⟨v', hv, hs⟩
      · rw [hv]; exact .inl ⟨rfl, rfl, hr'⟩
      · rw [hv]; exact hs
  | cons s rest ih =>
    rw [visit_cons, visit_cons, hview s index c w v hr]
    cases s.applyAt index v c random with
    | ok children random' =>
      exact h.each (fun c w v r hr => ih (index + 1) c w v r hr) children 0 w v random' hr
    | error e random' => exact .inl ⟨rfl, rfl, hr⟩

/-- An action on a part of the world does to that part what it does alone. -/
theorem visit_mapState {f : W → V} (hact : ∀ c, Effect.Projects f (action c) (action' c))
    (hview : ∀ (s : Subcommand) index c w, s.applyAt index w c = s.applyAt index (f w) c)
    (rest : List Subcommand) (index : Nat) (c : Context) (w : W) (random : Random) :
    visit action' rest index c (f w, random) =
      mapState (Prod.map f id) (visit action rest index c (w, random)) := by
  have hpar : Parallel action action' (fun w v => f w = v) (fun _ _ _ => False) := by
    refine ⟨fun c w v w' hr ha => ?_, fun c w v e w' hr ha => ?_, ?_, ?_⟩
    · subst hr
      exact ⟨f w', by rw [hact c w, ha, mapState], rfl⟩
    · subst hr
      exact .inl ⟨f w', by rw [hact c w, ha, mapState], rfl⟩
    · exact fun _ _ _ _ _ hs => hs.elim
    · exact fun _ _ _ _ _ _ hs => hs.elim
  have h := lockstep_visit hpar (fun s index c w v hr => hr ▸ hview s index c w) rest index c w
    (f w) random rfl
  cases hw : visit action rest index c (w, random) with
  | ok m state =>
    cases hv : visit action' rest index c (f w, random) with
    | ok n state' =>
      rw [hw, hv] at h
      obtain ⟨rfl, hrandom, hstate⟩ := h
      exact congrArg (EStateM.Result.ok m) (Prod.ext hstate.symm hrandom.symm)
    | error e' state' => rw [hw, hv] at h; exact h.elim
  | error e state =>
    cases hv : visit action' rest index c (f w, random) with
    | ok n state' => rw [hw, hv] at h; exact h.elim
    | error e' state' =>
      rw [hw, hv] at h
      obtain ⟨rfl, hrandom, hstate⟩ := h.resolve_right id
      exact congrArg (EStateM.Result.error e) (Prod.ext hstate.symm hrandom.symm)

end

/-! ## Notes beside the world -/

theorem stateLeft_noting (action : Context → Effect W Unit) (c : Context) (world : W)
    (visits : List (Visit W)) : stateLeft (noting action c (world, visits)) =
      (stateLeft (action c world), visits ++ [⟨world, c⟩]) := by
  simp only [noting]
  cases action c world <;> rfl

theorem error?_noting (action : Context → Effect W Unit) (c : Context) (world : W)
    (visits : List (Visit W)) :
    error? (noting action c (world, visits)) = error? (action c world) := by
  simp only [noting]
  cases action c world <;> rfl

/-- Notes do not change a visit. -/
theorem visit_noting [WorldView W] (action : Context → Effect W Unit) (rest : List Subcommand)
    (index : Nat) (c : Context) (world : W) (notes : List (Visit W)) (random : Random) :
    withoutNotes (visit (noting action) rest index c ((world, notes), random)) =
      visit action rest index c (world, random) := by
  have hact (c : Context) : Effect.Projects Prod.fst (noting action c) (action c) := by
    intro w
    simp only [noting]
    cases action c w.1 <;> rfl
  have h := visit_mapState (f := Prod.fst) hact
    (fun s index c w => applyAt_pair s index w.1 w.2 c) rest index c (world, notes) random
  rw [h]
  cases visit (noting action) rest index c ((world, notes), random) <;> rfl

end CommandChain
