import CommandChain.Proofs.Chain.Aspects
import CommandChain.Proofs.Chain.Concat
import CommandChain.Proofs.Subcommand.Drawing

/-!
# Guards side by side

A guard whose selectors are ordered by distance draws nothing, so it says the same of a
context from every random source (`Guard.Says`), and lets it pass, stops it or fails. No action
runs between two guards side by side, so both judge the same world. Hence a guard twice is the
guard (`evaluate_twice`), and nothing passes a guard and the guard flipped (`evaluate_flipped`),
whatever is visited next.

The order of two guards makes no difference if neither fails, where `Reaches` says which
contexts they have to judge: it depends on what the action has done in earlier branches, so
this one is an induction on the subcommands above the guards (`visit_swap`).
`Chain.guards_side_by_side` has all three inside any chain.
-/

namespace CommandChain

variable {W : Type} [WorldView W]

/-! ## One guard -/

/-- The guard with `unless` for `if` and `if` for `unless`. -/
def Guard.flipped (g : Guard) : Guard := { g with negated := !g.negated }

/-- What the guard says of a context from every random source, which it leaves alone. -/
def Guard.Says (g : Guard) (world : W) (c : Context) (verdict : Except Error Bool) : Prop :=
  ∀ random, g.passes world c random = Effect.ofExcept verdict random

section

variable {g : Guard} {world : W} {c : Context} {verdict : Except Error Bool}

theorem Guard.exists_says (h : AllNearest g.condition.selectors) (world : W) (c : Context) :
    ∃ verdict, g.Says world c verdict :=
  (drawsNothing_condition h world c).bind fun _ => Effect.drawsNothing_pure _

theorem Guard.passes_flipped (g : Guard) (world : W) (c : Context) :
    g.flipped.passes world c = (!·) <$> g.passes world c := by
  funext random
  simp only [passes, flipped, bind, EStateM.bind, Functor.map, EStateM.map]
  cases g.condition.holds world c random with
  | ok b random' => cases b <;> cases g.negated <;> rfl
  | error e random' => rfl

theorem Guard.Says.flipped (h : g.Says world c verdict) :
    g.flipped.Says world c (verdict.map (!·)) := by
  intro random
  rw [passes_flipped]
  simp only [Functor.map, EStateM.map, h random]
  cases verdict <;> rfl

/-- The contexts that a guard makes of one, by what it says. -/
theorem Guard.Says.applyAt (h : g.Says world c verdict) (index : Nat) (random : Random) :
    (Subcommand.guard g).applyAt index world c random =
      Effect.within (Effect.ofExcept (verdict.map fun passes => if passes then [c] else []))
        ((Subcommand.guard g).place index) random := by
  simp only [Subcommand.applyAt, Subcommand.apply, Effect.within, bind, EStateM.bind, h random]
  cases verdict <;> rfl

variable {ε : Type} {raise : Error → ε} {finish : Context → EStateM ε (W × Random) Nat}

theorem evaluate_guard_passed (h : g.Says world c (.ok true)) (rest : List Subcommand)
    (index : Nat) (random : Random) :
    evaluate raise finish (.guard g :: rest) index c (world, random) =
      evaluate raise finish rest (index + 1) c (world, random) := by
  have happly : raising raise (Effect.onSecond fun world : W =>
      (Subcommand.guard g).applyAt index world c) (world, random) = .ok [c] (world, random) := by
    simp only [raising, Effect.onSecond, h.applyAt]
    rfl
  rw [evaluate, bind_of_ok happly, List.foldlM_cons]
  simp only [bind, EStateM.bind]
  cases evaluate raise finish rest (index + 1) c (world, random) with
  | ok n state => exact congrArg (EStateM.Result.ok · state) (Nat.zero_add n)
  | error e state => rfl

theorem evaluate_guard_stopped (h : g.Says world c (.ok false)) (rest : List Subcommand)
    (index : Nat) (random : Random) :
    evaluate raise finish (.guard g :: rest) index c (world, random) = .ok 0 (world, random) := by
  simp only [evaluate, raising, Effect.onSecond, bind, EStateM.bind, h.applyAt]
  rfl

theorem evaluate_guard_failed {e : Error} (h : g.Says world c (.error e))
    (rest : List Subcommand) (index : Nat) (random : Random) :
    evaluate raise finish (.guard g :: rest) index c (world, random) =
      .error (raise (e.within ((Subcommand.guard g).place index))) (world, random) := by
  simp only [evaluate, raising, Effect.onSecond, bind, EStateM.bind, h.applyAt]
  rfl

end

/-! ## Two guards -/

section

variable {g h : Guard} {ε : Type} {raise : Error → ε}
  {finish : Context → EStateM ε (W × Random) Nat}

/-- A guard says the same again. -/
theorem evaluate_twice (hg : AllNearest g.condition.selectors) (index : Nat) :
    evaluate raise finish [.guard g, .guard g] index =
      evaluate raise finish [.guard g] index := by
  funext c ⟨world, random⟩
  obtain ⟨verdict, hsays⟩ := Guard.exists_says hg world c
  match verdict with
  | .ok true =>
    rw [evaluate_guard_passed hsays, evaluate_guard_passed hsays, evaluate_guard_passed hsays]
    rfl
  | .ok false => rw [evaluate_guard_stopped hsays, evaluate_guard_stopped hsays]
  | .error e => rw [evaluate_guard_failed hsays, evaluate_guard_failed hsays]

/-- Nothing passes a guard and then the guard flipped. -/
theorem evaluate_flipped (hg : AllNearest g.condition.selectors) (index : Nat) :
    evaluate raise finish [.guard g, .guard g.flipped] index =
      evaluate raise (fun _ => pure 0) [.guard g] index := by
  funext c ⟨world, random⟩
  obtain ⟨verdict, hsays⟩ := Guard.exists_says hg world c
  match verdict with
  | .ok true =>
    rw [evaluate_guard_passed hsays, evaluate_guard_passed hsays,
      evaluate_guard_stopped hsays.flipped]
    rfl
  | .ok false => rw [evaluate_guard_stopped hsays, evaluate_guard_stopped hsays]
  | .error e => rw [evaluate_guard_failed hsays, evaluate_guard_failed hsays]

/-- The guard gives an answer about the context, and no error. -/
def Guard.Answers (g : Guard) (c : Context) (state : W × Random) : Prop :=
  error? (g.passes state.1 c state.2) = none

theorem Guard.Answers.exists_says {c : Context} {state : W × Random} (h : g.Answers c state)
    (hg : AllNearest g.condition.selectors) : ∃ passes, g.Says state.1 c (.ok passes) := by
  obtain ⟨verdict, hsays⟩ := Guard.exists_says hg state.1 c
  cases verdict with
  | ok passes => exact ⟨passes, hsays⟩
  | error e => rw [Answers, hsays] at h; cases h

/-- Two guards that give answers may stand in either order. -/
theorem evaluate_swap {c : Context} {state : W × Random}
    (hg : AllNearest g.condition.selectors) (hh : AllNearest h.condition.selectors)
    (hgc : g.Answers c state) (hhc : h.Answers c state) (rest : List Subcommand) (index : Nat) :
    evaluate raise finish (.guard g :: .guard h :: rest) index c state =
      evaluate raise finish (.guard h :: .guard g :: rest) index c state := by
  obtain ⟨passes, hg⟩ := hgc.exists_says hg
  obtain ⟨passes', hh⟩ := hhc.exists_says hh
  obtain ⟨world, random⟩ := state
  match passes, passes' with
  | true, true =>
    rw [evaluate_guard_passed hg, evaluate_guard_passed hh, evaluate_guard_passed hh,
      evaluate_guard_passed hg]
  | true, false =>
    rw [evaluate_guard_passed hg, evaluate_guard_stopped hh, evaluate_guard_stopped hh]
  | false, true =>
    rw [evaluate_guard_stopped hg, evaluate_guard_passed hh, evaluate_guard_stopped hg]
  | false, false => rw [evaluate_guard_stopped hg, evaluate_guard_stopped hh]

end

/-! ## Chains that come to nothing -/

/-- The visit of a chain that does nothing in the end. -/
theorem evaluate_idle (l : List Subcommand) (index : Nat) (c : Context) :
    evaluate (W := W) id (fun _ => pure 0) l index c =
      (fun _ => 0) <$> visit (fun _ => pure ()) l index c := by
  induction l generalizing index c with
  | nil => rfl
  | cons s rest ih =>
    have hfold (children : List Context) (count : Nat) (state : W × Random) :
        children.foldlM (m := Effect (W × Random)) (fun count child =>
          return count + (← (fun _ => 0) <$> visit (fun _ => pure ()) rest (index + 1) child))
            0 state =
          ((fun _ => 0) <$> visitEach (fun _ => pure ()) rest (index + 1) count children)
            state := by
      induction children generalizing count state with
      | nil => rfl
      | cons child children ihc =>
        cases hv : visit (fun _ => pure ()) rest (index + 1) child state with
        | ok n state' =>
          have hchild : ((fun _ => 0) <$> visit (fun _ => pure ()) rest (index + 1) child :
              Effect (W × Random) Nat) state = .ok 0 state' := by
            simp only [Functor.map, EStateM.map, hv]
          rw [List.foldlM_cons, bind_assoc, bind_of_ok hchild]
          refine (ihc (count + n) state').trans ?_
          simp only [Functor.map, EStateM.map, visitEach_cons, hv]
        | error e state' =>
          have hchild : ((fun _ => 0) <$> visit (fun _ => pure ()) rest (index + 1) child :
              Effect (W × Random) Nat) state = .error e state' := by
            simp only [Functor.map, EStateM.map, hv]
          rw [List.foldlM_cons, bind_assoc, bind_of_error hchild]
          simp only [Functor.map, EStateM.map, visitEach_cons, hv]
    simp only [evaluate, visit, raising_id, map_bind, ih]
    exact congrArg _ (funext fun children => funext fun state => hfold children 0 state)

/-- Without an action the world stays, and only subcommands fail. -/
theorem exists_visit_idle (l : List Subcommand) (index : Nat) (c : Context) (world : W)
    (random : Random) :
    ∃ random', (∃ n, visit (fun _ => pure ()) l index c (world, random) =
        .ok n (world, random')) ∨
      ∃ e, visit (fun _ => pure ()) l index c (world, random) = .error e (world, random') ∧
        Misapplied l index e (world, random') := by
  have hk : Keeps (fun _ w => w = world) (fun _ _ => False) 0
      (visit (fun _ => pure ()) l index c (world, random)) :=
    keeps_visit (fun _ _ _ _ hw ha => by cases ha; exact hw) (fun _ _ _ _ _ _ ha => nomatch ha)
      l index c 0 world random rfl
  cases hv : visit (fun _ => pure ()) l index c (world, random) with
  | ok n state =>
    rw [hv] at hk
    exact ⟨state.2, .inl ⟨n, congrArg _ (Prod.ext hk rfl)⟩⟩
  | error e state =>
    rw [hv] at hk
    obtain ⟨_, hw⟩ := hk.resolve_right id
    obtain ⟨world', random'⟩ := state
    obtain rfl : world' = world := hw
    rcases visit_error hv with hs | ⟨_, _, ha⟩
    · exact ⟨random', .inr ⟨e, rfl, hs⟩⟩
    · cases ha

/-! ## Contexts that reach a subcommand -/

section

variable {action : Context → Effect W Unit}

/-- While the subcommands of the list are visited from a context, the one in place `k` is
applied to `c'` in `state'`. -/
inductive Reaches (action : Context → Effect W Unit) :
    List Subcommand → Nat → Context → W × Random → Nat → Context → W × Random → Prop where
  | here {s : Subcommand} {rest : List Subcommand} {index : Nat} {c : Context}
    {state : W × Random} : Reaches action (s :: rest) index c state 0 c state
  /-- It is reached from a child, after the children before it have been visited. -/
  | further {s : Subcommand} {rest : List Subcommand} {index k n : Nat} {c child c' : Context}
    {world : W} {random random' : Random} {before after : List Context}
    {state state' : W × Random} :
    s.applyAt index world c random = .ok (before ++ child :: after) random' →
    visitEach action rest (index + 1) 0 before (world, random') = .ok n state →
    Reaches action rest (index + 1) child state k c' state' →
    Reaches action (s :: rest) index c (world, random) (k + 1) c' state'

theorem visitEach_append (rest : List Subcommand) (index count : Nat) (children more : List Context)
    (state : W × Random) :
    visitEach action rest index count (children ++ more) state =
      match visitEach action rest index count children state with
      | .ok n state' => visitEach action rest index n more state'
      | .error e state' => .error e state' := by
  simp only [visitEach, List.foldlM_append, bind, EStateM.bind]
  cases children.foldlM (m := Effect (W × Random))
    (fun count child => return count + (← visit action rest index child)) count state <;> rfl

/-- Two lists of subcommands do the same with contexts one after the other if they do the
same with each, from the state that those before it have left. -/
theorem visitEach_congr {l m : List Subcommand} {index : Nat} {children : List Context}
    {state : W × Random}
    (h : ∀ before child after n state', children = before ++ child :: after →
      visitEach action l index 0 before state = .ok n state' →
      visitEach action m index 0 before state = .ok n state' →
      visit action l index child state' = visit action m index child state') :
    visitEach action l index 0 children state = visitEach action m index 0 children state := by
  induction children using List.reverseRecOn with
  | nil => rfl
  | append_singleton children child ih =>
    have hbefore := ih fun before child' after n state' hsplit =>
      h before child' (after ++ [child]) n state' (by simp [hsplit])
    rw [visitEach_append, visitEach_append, ← hbefore]
    cases hv : visitEach action l index 0 children state with
    | ok n state' =>
      have hchild := h children child [] n state' rfl hv (hbefore ▸ hv)
      simp only [visitEach_cons, visitEach_nil, hchild]
    | error e state' => rfl

/-- Two guards that give answers wherever they are reached may stand in either order. -/
theorem visit_swap {g h : Guard} (hg : AllNearest g.condition.selectors)
    (hh : AllNearest h.condition.selectors) {l : List Subcommand} (rest : List Subcommand)
    {index : Nat} {c : Context} {state : W × Random}
    (hgc : ∀ c' state', Reaches action (l ++ .guard g :: .guard h :: rest) index c state
      l.length c' state' → g.Answers c' state')
    (hhc : ∀ c' state', Reaches action (l ++ .guard h :: .guard g :: rest) index c state
      l.length c' state' → h.Answers c' state') :
    visit action (l ++ .guard g :: .guard h :: rest) index c state =
      visit action (l ++ .guard h :: .guard g :: rest) index c state := by
  induction l generalizing index c state with
  | nil =>
    simp only [List.nil_append, visit_eq_evaluate]
    exact evaluate_swap hg hh (hgc c state .here) (hhc c state .here) rest index
  | cons s l ih =>
    obtain ⟨world, random⟩ := state
    simp only [List.cons_append, visit_cons]
    cases ha : s.applyAt index world c random with
    | ok children random' =>
      refine visitEach_congr fun before child after n state' hsplit hl hm => ?_
      rw [hsplit] at ha
      exact ih (fun c' state'' hr => hgc c' state'' (.further ha hl hr))
        (fun c' state'' hr => hhc c' state'' (.further ha hm hr))
    | error e random' => rfl

theorem visitEach_noting (action : Context → Effect W Unit) (rest : List Subcommand)
    (index count : Nat) (children : List Context) (world : W) (visits : List (Visit W))
    (random : Random) :
    withoutNotes (visitEach (noting action) rest index count children ((world, visits), random)) =
      visitEach action rest index count children (world, random) := by
  induction children generalizing count world visits random with
  | nil => rfl
  | cons child children ih =>
    rw [visitEach_cons, visitEach_cons, ← visit_noting action rest index child world visits random]
    cases visit (noting action) rest index child ((world, visits), random) with
    | ok n state => exact ih (count + n) state.1.1 state.1.2 state.2
    | error e state => rfl

/-- A subcommand is reached alike if the runs of the action are noted down. -/
theorem Reaches.of_noting {l : List Subcommand} {index k : Nat} {c c' : Context}
    {noted noted' : (W × List (Visit W)) × Random}
    (h : Reaches (noting action) l index c noted k c' noted') :
    Reaches action l index c (noted.1.1, noted.2) k c' (noted'.1.1, noted'.2) := by
  induction h with
  | here => exact .here
  | @further _ rest index _ _ _ _ _ world _ random' before _ _ _ ha hv _ ih =>
    have hv' := visitEach_noting action rest (index + 1) 0 before world.1 world.2 random'
    rw [hv] at hv'
    exact .further ha hv'.symm ih

end

theorem Guard.answers_pair {α : Type} {g : Guard} {c : Context} {noted : (W × α) × Random} :
    g.Answers c noted ↔ g.Answers c (noted.1.1, noted.2) := Iff.rfl

/-! ## Guards in chains -/

/-- The chain of some guards. -/
def Chain.guards (l : List Guard) : Chain := ⟨l.map .guard⟩

theorem Chain.subcommands_append_guards (p q : Chain) (l : List Guard) :
    (p ++ guards l ++ q).subcommands = p.subcommands ++ (l.map .guard ++ q.subcommands) :=
  List.append_assoc ..

theorem Chain.length_append_guards (p : Chain) (l : List Guard) :
    (p ++ guards l).length = p.length + l.length :=
  List.length_append.trans (congrArg (p.length + ·) (List.length_map _))

section

variable {g h : Guard} (p q : Chain) (root : Context) (action : Context → Effect W Unit)

/-- A guard and the same again do what the guard does. -/
theorem nested_guards_twice (hg : AllNearest g.condition.selectors) :
    nested (p ++ .guards [g, g]) q root action = nested (p ++ .guards [g]) q root action := by
  have hsplit (l : List Guard) :
      (p ++ .guards l : Chain).subcommands = p.subcommands ++ l.map .guard := rfl
  simp only [nested, hsplit, evaluate_append]
  exact congrArg (evaluate Raised.outer · p.subcommands 0 root) (evaluate_twice hg _)

/-- What comes behind a guard and the guard flipped makes no difference. -/
theorem visit_guards_flipped (hg : AllNearest g.condition.selectors) :
    (p ++ .guards [g, g.flipped] ++ q).visit root action =
      (fun _ => 0) <$> (p ++ .guards [g] : Chain).visit root fun _ => pure () := by
  have hsplit := p.subcommands_append_guards q [g, g.flipped]
  have hsplit' : (p ++ .guards [g] : Chain).subcommands = p.subcommands ++ [.guard g] := rfl
  simp only [Chain.visit, hsplit, hsplit', ← evaluate_idle]
  rw [visit_eq_evaluate, evaluate_append, evaluate_append id (fun _ => pure 0)]
  congr 1
  funext c
  rw [evaluate_append]
  exact congrFun (evaluate_flipped hg _) c

end

/-- Guards of selectors ordered by distance, side by side in a chain. A guard twice does what
it does once, with errors of later subcommands numbered on by one. Nothing passes a guard and
then the guard flipped: the action does not run, and all errors are of the guard or of what is
before it. Two guards that give answers wherever they are reached do the same in either order.
Each time the contexts visited, the worlds found there, the world left and the count or error
are meant, which the visit with notes tells, and it is the visit apart from the notes. -/
theorem Chain.guards_side_by_side {W : Type} [WorldView W] {g h : Guard}
    (hg : AllNearest g.condition.selectors) (hh : AllNearest h.condition.selectors) (p q : Chain)
    (root : Context) (action : Context → Effect W Unit) (world : W) (random : Random) :
    let visited (chain : Chain) := chain.visit root (noting action) ((world, []), random)
    let once := nested (p ++ guards [g]) q root (noting action) ((world, []), random)
    (visited (p ++ guards [g] ++ q) = mapError (Raised.inConcat (p.length + 1)) once ∧
      visited (p ++ guards [g, g] ++ q) = mapError (Raised.inConcat (p.length + 2)) once) ∧
    (∃ random', visited (p ++ guards [g, g.flipped] ++ q) = .ok 0 ((world, []), random') ∨
      ∃ e, visited (p ++ guards [g, g.flipped] ++ q) = .error e ((world, []), random') ∧
        Misapplied (p ++ guards [g]).subcommands 0 e (world, random')) ∧
    ((∀ c state, Reaches action (p ++ guards [g, h] ++ q).subcommands 0 root (world, random)
        p.length c state → g.Answers c state) →
      (∀ c state, Reaches action (p ++ guards [h, g] ++ q).subcommands 0 root (world, random)
        p.length c state → h.Answers c state) →
      visited (p ++ guards [g, h] ++ q) = visited (p ++ guards [h, g] ++ q)) ∧
    ∀ chain, withoutNotes (visited chain) = chain.visit root action (world, random) := by
  intro visited once
  refine ⟨⟨?_, ?_⟩, ?_, fun hgc hhc => ?_, fun chain => ?_⟩
  · have h := raising_nested (p ++ guards [g]) q root (noting action)
    rw [length_append_guards] at h
    exact (congrFun h _).symm
  · have h := raising_nested (p ++ guards [g, g]) q root (noting action)
    rw [length_append_guards, nested_guards_twice p q root (noting action) hg] at h
    exact (congrFun h _).symm
  · have hflipped := congrFun (visit_guards_flipped p q root (noting action) hg)
      ((world, []), random)
    obtain ⟨random', hidle⟩ := exists_visit_idle (p ++ guards [g]).subcommands 0 root
      (world, ([] : List (Visit W))) random
    refine ⟨random', hidle.imp ?_ ?_⟩
    · rintro ⟨n, hn⟩
      exact hflipped.trans (map_of_ok hn)
    · rintro ⟨e, he, k, s, c, random'', hs, hfails⟩
      refine ⟨e, hflipped.trans ?_, k, s, c, random'', hs, hfails⟩
      simp only [Functor.map, EStateM.map, visit, he]
  · rw [subcommands_append_guards] at hgc hhc
    simp only [visited, visit, subcommands_append_guards]
    exact visit_swap hg hh q.subcommands
      (fun c state hr => Guard.answers_pair.2 (hgc c _ hr.of_noting))
      (fun c state hr => Guard.answers_pair.2 (hhc c _ hr.of_noting))
  · exact visit_noting action chain.subcommands 0 root world [] random

/-- The cow that is looked for executes and leaves, while there is a pig and a cow. -/
theorem Chain.guards_side_by_side_leaving :
    let w := (World.perform [.spawn (.ofType "pig"), .spawn (.ofType "cow")]).2
    let root := Context.atPoint ⟨0, .server⟩ .overworld .zero
    let leave (c : Context) : Effect World Unit :=
      c.executor.elim (pure ()) fun id => World.effect (·.despawn id)
    ∃ cow pig, Selector.parse .standard "@e[type=cow]" = .ok cow ∧
      Selector.parse .standard "@e[type=pig]" = .ok pig ∧
      let p : Chain := ⟨[.fork ⟨.as, cow⟩]⟩
      let q : Chain := ⟨[.redirect (.anchored .eyes)]⟩
      let g : Guard := ⟨.entity pig, false⟩
      let h : Guard := ⟨.entity cow, false⟩
      let visited (l : List Guard) :=
        (p ++ guards l ++ q).visit root (noting leave) ((w, []), .ofSeed 1)
      AllNearest g.condition.selectors ∧ AllNearest h.condition.selectors ∧
        (notes (visited [g, h])).map (·.context.executor) = [some ⟨1, 1⟩] ∧
        visited [g, h] = visited [h, g] ∧ value? (visited [g]) = value? (visited [g, g]) ∧
        notes (visited [g, g.flipped]) = [] := by
  intro w root leave
  have hall : (Selector.parse .standard "@e[type=cow]").toOption.any fun cow =>
      (Selector.parse .standard "@e[type=pig]").toOption.any fun pig =>
        let p : Chain := ⟨[.fork ⟨.as, cow⟩]⟩
        let guards := Chain.guards [⟨.entity pig, false⟩, ⟨.entity cow, false⟩]
        AllNearest [pig] ∧ AllNearest [cow] ∧
          (notes ((p ++ guards ++ ⟨[.redirect (.anchored .eyes)]⟩).visit root (noting leave)
            ((w, []), .ofSeed 1))).map (·.context.executor) = [some ⟨1, 1⟩] ∧
          (value? ((Subcommand.fork ⟨.as, cow⟩).applyAt 0 w root (.ofSeed 1))).any fun children =>
            children.length = 1 ∧ ∀ c ∈ children,
              (error? (Guard.passes ⟨.entity pig, false⟩ w c (.ofSeed 1))).isNone ∧
              (error? (Guard.passes ⟨.entity cow, false⟩ w c (.ofSeed 1))).isNone := by
    decide +kernel
  obtain ⟨cow, hcow, hall⟩ := exists_ok_of_any hall
  obtain ⟨pig, hpig, hall⟩ := exists_ok_of_any hall
  obtain ⟨hg, hh, hvisits, hchildren⟩ := of_decide_eq_true hall
  have hanswers (l : List Subcommand) (c : Context) (state : World × Random)
      (hr : Reaches leave (.fork ⟨.as, cow⟩ :: l) 0 root (w, .ofSeed 1) 1 c state) :
      Guard.Answers ⟨.entity pig, false⟩ c state ∧ Guard.Answers ⟨.entity cow, false⟩ c state := by
    cases hr with
    | @further _ _ _ _ n _ child _ _ _ random' before after state _ ha hv hr =>
      rw [ha] at hchildren
      obtain ⟨hone, hboth⟩ := of_decide_eq_true hchildren
      have hlength : before.length + (after.length + 1) = 1 := by simpa using hone
      obtain rfl : before = [] := List.length_eq_zero_iff.1 (by omega)
      cases hv
      cases hr
      obtain ⟨r, hr⟩ := Subcommand.drawsNothing_applyAt (s := .fork ⟨.as, cow⟩) hh 0 w root
      obtain rfl : random' = .ofSeed 1 := by
        rw [hr] at ha
        cases r <;> cases ha
        rfl
      exact (hboth c List.mem_cons_self).imp Option.isNone_iff_eq_none.1
        Option.isNone_iff_eq_none.1
  obtain ⟨⟨honce, htwice⟩, hflipped, hswap, -⟩ := Chain.guards_side_by_side
    (g := ⟨.entity pig, false⟩) (h := ⟨.entity cow, false⟩) hg hh ⟨[.fork ⟨.as, cow⟩]⟩
    ⟨[.redirect (.anchored .eyes)]⟩ root leave w (.ofSeed 1)
  refine ⟨cow, pig, hcow, hpig, hg, hh, hvisits, ?_, ?_, ?_⟩
  · exact hswap (fun c state hr => (hanswers _ c state hr).1)
      (fun c state hr => (hanswers _ c state hr).2)
  · have honce := (congrArg value? honce).trans (value?_mapError ..)
    have htwice := (congrArg value? htwice).trans (value?_mapError ..)
    exact honce.trans htwice.symm
  · obtain ⟨random', hdone | ⟨e, hfailed, -⟩⟩ := hflipped
    · exact congrArg notes hdone
    · exact congrArg notes hfailed

end CommandChain
