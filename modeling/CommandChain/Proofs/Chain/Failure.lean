import CommandChain.Proofs.Chain.Invariant
import CommandChain.Proofs.Runner
import CommandChain.Proofs.Subcommand.Failure

/-!
# Where the errors of a run come from

A run ends with the first error, and that is the error of its last action or of a
subcommand. In the second case all actions were carried out, and the error has the
text and the number of the subcommand as its place (`Runner.run_error`).
-/

namespace CommandChain

variable {W : Type}

section

variable [WorldView W] {action : Context → Effect W Unit} {e : Error} {state state' : W × Random}

/-- A subcommand of the list could not be applied to the world left; the first of the
list is number `index`. -/
def Misapplied (rest : List Subcommand) (index : Nat) (e : Error) (state : W × Random) : Prop :=
  ∃ (k : Nat) (s : Subcommand) (c : Context) (random : Random), rest[k]? = some s ∧
    s.applyAt (index + k) state.1 c random = .error e state.2

theorem Misapplied.further {s : Subcommand} {rest : List Subcommand} {index : Nat}
    (h : Misapplied rest (index + 1) e state) : Misapplied (s :: rest) index e state := by
  obtain ⟨k, s', c, random, hs, he⟩ := h
  exact ⟨k + 1, s', c, random, hs, by rw [← he, Nat.add_right_comm, Nat.add_assoc]⟩

theorem visitEach_error {rest : List Subcommand} {index : Nat}
    (ih : ∀ c state, visit action rest index c state = .error e state' →
      Misapplied rest index e state' ∨ ∃ c world, action c world = .error e state'.1)
    {children : List Context} {count : Nat}
    (h : visitEach action rest index count children state = .error e state') :
    Misapplied rest index e state' ∨ ∃ c world, action c world = .error e state'.1 := by
  induction children generalizing count state with
  | nil => cases h
  | cons child children ihc =>
    rw [visitEach_cons] at h
    cases hv : visit action rest index child state with
    | ok n state'' => rw [hv] at h; exact ihc h
    | error e' state'' => rw [hv] at h; cases h; exact ih child state hv

/-- The error of a visit is that of a subcommand or of the action. -/
theorem visit_error {rest : List Subcommand} {index : Nat} {c : Context}
    (h : visit action rest index c state = .error e state') :
    Misapplied rest index e state' ∨ ∃ c world, action c world = .error e state'.1 := by
  induction rest generalizing index c state with
  | nil =>
    rw [visit_nil] at h
    cases ha : action c state.1 with
    | ok u world' => rw [ha] at h; cases h
    | error e' world' => rw [ha] at h; cases h; exact .inr ⟨c, state.1, ha⟩
  | cons s rest ih =>
    rw [visit_cons] at h
    cases hs : s.applyAt index state.1 c state.2 with
    | ok children random' =>
      rw [hs] at h
      exact (visitEach_error (fun c state => ih) h).imp_left .further
    | error e' random' =>
      rw [hs] at h
      cases h
      exact .inl ⟨0, s, c, state.2, rfl, hs⟩

end

/-! ## Visits with notes -/

section

variable {action : Context → Effect W Unit} {c : Context} {world world' : W} {e : Error}
  {visits visits' : List (Visit W)}

theorem noting_ok (h : noting action c (world, visits) = .ok () (world', visits')) :
    action c world = .ok () world' ∧ visits' = visits ++ [⟨world, c⟩] := by
  simp only [noting] at h
  cases ha : action c world with
  | ok u world'' => rw [ha] at h; cases h; exact ⟨rfl, rfl⟩
  | error e' world'' => rw [ha] at h; cases h

theorem noting_error (h : noting action c (world, visits) = .error e (world', visits')) :
    action c world = .error e world' ∧ visits' = visits ++ [⟨world, c⟩] := by
  simp only [noting] at h
  cases ha : action c world with
  | ok u world'' => rw [ha] at h; cases h
  | error e' world'' => rw [ha] at h; cases h; exact ⟨rfl, rfl⟩

/-- The run of the action was carried out. -/
def Visit.Succeeds (action : Context → Effect W Unit) (v : Visit W) : Prop :=
  ∃ world', action v.context v.world = .ok () world'

/-- All runs of the action were carried out but the last, which failed. -/
def LastFailed (action : Context → Effect W Unit) (visits : List (Visit W)) (e : Error)
    (world' : W) : Prop :=
  ∃ before v, visits = before ++ [v] ∧ (∀ u ∈ before, u.Succeeds action) ∧
    action v.context v.world = .error e world'

theorem succeeds_or_lastFailed [WorldView W] {rest : List Subcommand} {index : Nat}
    {random random' : Random} (h : visit (noting action) rest index c ((world, []), random) =
      .error e ((world', visits), random')) :
    (∀ v ∈ visits, v.Succeeds action) ∨ LastFailed action visits e world' := by
  have hk : Keeps (fun _ (noted : W × List (Visit W)) => ∀ v ∈ noted.2, v.Succeeds action)
      (fun e noted => LastFailed action noted.2 e noted.1) 0
      (visit (noting action) rest index c ((world, []), random)) := by
    refine keeps_visit (fun n c noted noted' hn ha => ?_) (fun n c noted e noted' hn ha => ?_)
      rest index c 0 (world, []) random nofun
    · obtain ⟨ha, hv⟩ := noting_ok ha
      rw [hv]
      exact List.forall_mem_append.2 ⟨hn, List.forall_mem_singleton.2 ⟨_, ha⟩⟩
    · obtain ⟨ha, hv⟩ := noting_error ha
      exact ⟨noted.2, ⟨noted.1, c⟩, hv, hn, ha⟩
  rw [h] at hk
  rcases hk with ⟨-, hk⟩ | hk
  · exact .inl hk
  · exact .inr hk

end

/-! ## Runs -/

namespace Runner

variable [WorldView W] {chain : Chain} {root : Context} {action : Context → Effect W Unit}
  {world world' : W} {r r' : Runner} {e : Error}

theorem run_eq_error_iff : run chain root action (world, r) = .error e (world', r') ↔
    ∃ random', chain.visit root action (world, r.random) = .error e (world', random') ∧
      r' = { r with random := random' } := by
  rw [run_eq]
  cases chain.visit root action (world, r.random) with
  | ok n state => simp [mapState]
  | error e' state => simp [mapState, drawn, Prod.ext_iff, eq_comm, and_assoc]

/-- An error of a run is that of its last action, or that of a subcommand after all
actions were carried out; and then its place is the text and the number of that
subcommand. -/
theorem run_error (h : run chain root action (world, r) = .error e (world', r')) :
    ∃ visits, run chain root (noting action) ((world, []), r) = .error e ((world', visits), r') ∧
      (LastFailed action visits e world' ∨
        (∀ v ∈ visits, v.Succeeds action) ∧
          ∃ index s c random fault, chain.get? index = some s ∧
            s.apply world' c random = .error ⟨fault, none⟩ r'.random ∧
            e = ⟨fault, some ⟨some (toString s), some index⟩⟩) := by
  obtain ⟨random', hv, rfl⟩ := run_eq_error_iff.1 h
  have hnoted := visit_noting action chain.subcommands 0 root world [] r.random
  rw [Chain.visit] at hv
  rw [hv] at hnoted
  cases hn : visit (noting action) chain.subcommands 0 root ((world, []), r.random) with
  | ok n state => rw [hn] at hnoted; cases hnoted
  | error e' state =>
    obtain ⟨⟨world'', visits⟩, random''⟩ := state
    rw [hn] at hnoted
    cases hnoted
    refine ⟨visits, run_eq_error_iff.2 ⟨_, hn, rfl⟩, ?_⟩
    rcases succeeds_or_lastFailed hn with hall | hlast
    · rcases visit_error hn with ⟨index, s, c, random, hs, ha⟩ | ⟨c, noted, ha⟩
      · rw [Nat.zero_add, applyAt_pair] at ha
        obtain ⟨fault, ha, he⟩ := applyAt_eq_error_iff.1 ha
        exact .inr ⟨hall, index, s, c, random, fault, hs, ha, he⟩
      · -- a run that failed is among those noted down
        obtain ⟨ha, hv⟩ := noting_error ha
        obtain ⟨_, hok⟩ := hall ⟨noted.1, c⟩ (hv ▸ List.mem_append_right _ List.mem_cons_self)
        rw [ha] at hok
        cases hok
    · exact .inl hlast

end Runner

end CommandChain
