import CommandChain.Chain.Parser
import CommandChain.Proofs.Chain.Single

/-!
# Aspects of contexts

What a context runs with are its aspects. A subcommand keeps all of them but those that it is
meant to change (`Subcommand.same_of_apply`). So a chain keeps every aspect that none of its
subcommands changes, whatever its forks pick and its action does to the world in between
(`Chain.keeps_aspects`). No subcommand changes the origin: every context has the sender of
its root.
-/

namespace CommandChain

/-- What a context runs with. -/
inductive Aspect where
  | origin
  | executor
  | dimension
  | position
  | rotation
  | anchor
  deriving DecidableEq, Repr

/-- The contexts do not differ in the aspect. -/
def Aspect.Same : Aspect → Context → Context → Prop
  | origin, c, c' => c.origin = c'.origin
  | executor, c, c' => c.executor = c'.executor
  | dimension, c, c' => c.dimension = c'.dimension
  | position, c, c' => c.position = c'.position
  | rotation, c, c' => c.rotation = c'.rotation
  | anchor, c, c' => c.anchor = c'.anchor

theorem Aspect.same_refl (aspect : Aspect) (c : Context) : aspect.Same c c := by
  cases aspect <;> rfl

theorem Aspect.Same.trans {aspect : Aspect} {c c' c'' : Context} (h : aspect.Same c c')
    (h' : aspect.Same c' c'') : aspect.Same c c'' := by
  cases aspect <;> exact Eq.trans h h'

/-! ## What subcommands are meant to change -/

def Redirect.changes : Redirect → List Aspect
  | positioned _ => [.position]
  | rotated _ => [.rotation]
  | inDimension _ => [.dimension, .position]
  | anchored _ => [.anchor]
  | align _ => [.position]
  | facing _ => [.rotation]

def ForkKind.changes : ForkKind → List Aspect
  | .as => [.executor]
  | .at => [.dimension, .position, .rotation]
  | .positionedAs => [.position]
  | .rotatedAs => [.rotation]
  | .facingEntity _ => [.rotation]

/-- The aspects that a subcommand is meant to change. -/
def Subcommand.changes : Subcommand → List Aspect
  | redirect r => r.changes
  | fork f => f.kind.changes
  | guard _ => []

theorem Subcommand.origin_not_mem_changes (s : Subcommand) : .origin ∉ s.changes := by
  match s with
  | .redirect r => cases r <;> simp [changes, Redirect.changes]
  | .fork ⟨kind, selector⟩ => cases kind <;> simp [changes, ForkKind.changes]
  | .guard g => exact nofun

/-! ## What subcommands keep -/

section

variable {W : Type} [WorldView W] {world : W} {c c' : Context} {aspect : Aspect}

theorem Redirect.same_of_apply {r : Redirect} (h : r.apply world c = .ok c')
    (hkept : aspect ∉ r.changes) : aspect.Same c c' := by
  cases r with
  | positioned position | facing position =>
    obtain ⟨here, -, h⟩ := exists_of_bind_ok h
    obtain ⟨point, -, h⟩ := exists_of_bind_ok h
    cases h
    cases aspect <;> simp_all [changes, Aspect.Same]
  | rotated rotation | align axes =>
    obtain ⟨_, -, h⟩ := exists_of_bind_ok h
    cases h
    cases aspect <;> simp_all [changes, Aspect.Same]
  | inDimension dimension =>
    by_cases hd : (WorldView.dimensions world).contains dimension
    · simp only [apply, if_pos hd] at h
      obtain ⟨here, -, h⟩ := exists_of_bind_ok h
      cases h
      cases aspect <;> simp_all [changes, Aspect.Same]
    · simp only [apply, if_neg hd] at h
      cases h
  | anchored anchor =>
    cases h
    cases aspect <;> simp_all [changes, Aspect.Same]

theorem Fork.same_of_adopt {kind : ForkKind} {id : EntityId} (h : adopt kind world c id = .ok c')
    (hkept : aspect ∉ kind.changes) : aspect.Same c c' := by
  obtain ⟨e, -, h⟩ := exists_of_bind_ok h
  cases kind with
  | as | «at» | positionedAs | rotatedAs =>
    cases h
    cases aspect <;> simp_all [ForkKind.changes, Aspect.Same]
  | facingEntity anchor =>
    obtain ⟨here, -, h⟩ := exists_of_bind_ok h
    cases h
    cases aspect <;> simp_all [ForkKind.changes, Aspect.Same]

theorem forall_of_mapM_ok {α β : Type} {f : α → Except Error β} {P : β → Prop} {l : List α}
    {bs : List β} (h : l.mapM f = .ok bs) (hf : ∀ a b, f a = .ok b → P b) : ∀ b ∈ bs, P b := by
  induction l generalizing bs with
  | nil => cases h; exact nofun
  | cons a l ih =>
    rw [List.mapM_cons] at h
    obtain ⟨b, hb, h⟩ := exists_of_bind_ok h
    obtain ⟨bs', hbs, h⟩ := exists_of_bind_ok h
    cases h
    exact List.forall_mem_cons.2 ⟨hf a b hb, ih hbs⟩

/-- A subcommand keeps what it is not meant to change, in every context that it makes. -/
theorem Subcommand.same_of_apply {s : Subcommand} {random random' : Random}
    {children : List Context} (h : s.apply world c random = .ok children random')
    (hkept : aspect ∉ s.changes) : ∀ child ∈ children, aspect.Same c child := by
  cases s with
  | redirect r =>
    obtain ⟨c', hr, h⟩ := exists_of_bind_ok (Effect.ofExcept_ok h)
    cases h
    exact List.forall_mem_singleton.2 (Redirect.same_of_apply hr hkept)
  | fork f =>
    obtain ⟨ids, _, -, h⟩ := bind_eq_ok_iff.1 h
    exact forall_of_mapM_ok (Effect.ofExcept_ok h) fun id c' hid => Fork.same_of_adopt hid hkept
  | guard g =>
    obtain ⟨passes, _, -, h⟩ := bind_eq_ok_iff.1 h
    cases h
    cases passes with
    | true => exact List.forall_mem_singleton.2 (aspect.same_refl c)
    | false => exact nofun

end

/-! ## What chains keep -/

section

variable {W : Type} [WorldView W] {action : Context → Effect W Unit} {P : Context → Prop}

theorem forall_notes_visitEach {rest : List Subcommand} {index count : Nat}
    (ih : ∀ c world visits random, P c → (∀ v ∈ visits, P v.context) →
      ∀ v ∈ notes (visit (noting action) rest index c ((world, visits), random)), P v.context)
    {children : List Context} (hchildren : ∀ child ∈ children, P child) (world : W)
    {visits : List (Visit W)} (hvisits : ∀ v ∈ visits, P v.context) (random : Random) :
    ∀ v ∈ notes (visitEach (noting action) rest index count children ((world, visits), random)),
      P v.context := by
  induction children generalizing count world visits random with
  | nil => exact hvisits
  | cons child children ihc =>
    obtain ⟨hchild, hchildren⟩ := List.forall_mem_cons.1 hchildren
    have hfirst := ih child world visits random hchild hvisits
    rw [visitEach_cons]
    cases hv : visit (noting action) rest index child ((world, visits), random) with
    | ok n state => rw [hv] at hfirst; exact ihc hchildren state.1.1 hfirst state.2
    | error e state => rw [hv] at hfirst; exact hfirst

/-- What the subcommands keep of a context, every context has in which the action runs. -/
theorem forall_notes_visit {rest : List Subcommand}
    (hrest : ∀ s ∈ rest, ∀ (world : W) c random children random', P c →
      s.apply world c random = .ok children random' → ∀ child ∈ children, P child)
    (index : Nat) {c : Context} (hc : P c) (world : W) {visits : List (Visit W)}
    (hvisits : ∀ v ∈ visits, P v.context) (random : Random) :
    ∀ v ∈ notes (visit (noting action) rest index c ((world, visits), random)), P v.context := by
  induction rest generalizing index c world visits random with
  | nil =>
    have hall : ∀ v ∈ visits ++ [⟨world, c⟩], P v.context :=
      List.forall_mem_append.2 ⟨hvisits, List.forall_mem_singleton.2 hc⟩
    have hleft : (stateLeft (noting action c (world, visits))).2 = visits ++ [⟨world, c⟩] :=
      congrArg Prod.snd (stateLeft_noting action c world visits)
    rw [← hleft] at hall
    rw [visit_nil]
    cases ha : noting action c (world, visits) with
    | ok u state => rw [ha] at hall; exact hall
    | error e state => rw [ha] at hall; exact hall
  | cons s rest ih =>
    obtain ⟨hs, hrest⟩ := List.forall_mem_cons.1 hrest
    rw [visit_cons]
    cases ha : s.applyAt index (world, visits) c random with
    | ok children random' =>
      have hchildren := hs world c random children random' hc (applyAt_eq_ok_iff.1 ha)
      exact forall_notes_visitEach (fun c world visits random hc hvisits =>
        ih hrest (index + 1) hc world hvisits random) hchildren world hvisits random'
    | error e random' => exact hvisits

end

/-- Every context in which the action of a chain runs has the origin, and so the sender, of the
root, and every aspect of the root that no subcommand of the chain is meant to change. -/
theorem Chain.keeps_aspects {W : Type} [WorldView W] (chain : Chain) (root : Context)
    (action : Context → Effect W Unit) (world : W) (random : Random) :
    let noted := chain.visit root (noting action) ((world, []), random)
    withoutNotes noted = chain.visit root action (world, random) ∧
      ∀ v ∈ notes noted, v.context.sender = root.sender ∧
        ∀ aspect, (∀ s ∈ chain.subcommands, aspect ∉ s.changes) → aspect.Same root v.context := by
  intro noted
  have hsame (aspect : Aspect) (hchain : ∀ s ∈ chain.subcommands, aspect ∉ s.changes) :
      ∀ v ∈ notes noted, aspect.Same root v.context :=
    forall_notes_visit
      (fun s hs world c random children random' hc h child hchild =>
        hc.trans (Subcommand.same_of_apply h (hchain s hs) child hchild))
      0 (aspect.same_refl root) world (List.forall_mem_nil _) random
  refine ⟨visit_noting action chain.subcommands 0 root world [] random, fun v hv => ⟨?_, ?_⟩⟩
  · have horigin := hsame .origin fun s _ => s.origin_not_mem_changes
    exact congrArg Origin.sender (horigin v hv).symm
  · exact fun aspect hchain => hsame aspect hchain v hv

/-- The cow that is looked for executes, turned like the pig, where the pig stands. -/
theorem Chain.keeps_aspects_turned :
    let w := (World.perform [.spawn (.ofType "pig"), .spawn (.ofType "cow")]).2
    let root : Context :=
      ⟨⟨0, .entity ⟨0, 1⟩⟩, some ⟨0, 1⟩, .overworld, .bound ⟨0, 1⟩, .zero, .feet⟩
    let leave (c : Context) : Effect World Unit :=
      c.executor.elim (pure ()) fun id => World.effect (·.despawn id)
    ∃ chain, Chain.parse .standard [.fork .as "@e[type=cow]", .fork .rotatedAs "@e[type=pig]",
        .guard false (.entity "@s[type=cow]"), .anchored "eyes"] = .ok chain ∧
      ∃ v ∈ notes (chain.visit root (noting leave) ((w, []), .ofSeed 1)),
        v.context.executor = some ⟨1, 1⟩ ∧ v.context.sender = root.sender ∧
          (∀ s ∈ chain.subcommands, .position ∉ s.changes ∧ .dimension ∉ s.changes) ∧
            v.context.position = .bound ⟨0, 1⟩ ∧ v.context.dimension = .overworld := by
  intro w root leave
  have hall : (Chain.parse .standard [.fork .as "@e[type=cow]",
      .fork .rotatedAs "@e[type=pig]", .guard false (.entity "@s[type=cow]"),
      .anchored "eyes"]).toOption.any fun chain =>
        (∀ s ∈ chain.subcommands, .position ∉ s.changes ∧ .dimension ∉ s.changes) ∧
          (notes (chain.visit root (noting leave) ((w, []), .ofSeed 1))).map
            (·.context.executor) = [some ⟨1, 1⟩] := by
    decide +kernel
  obtain ⟨chain, hchain, hboth⟩ := exists_ok_of_any hall
  obtain ⟨hkept, hvisits⟩ := of_decide_eq_true hboth
  have hmem : some ⟨1, 1⟩ ∈ (notes (chain.visit root (noting leave) ((w, []), .ofSeed 1))).map
      (·.context.executor) := by
    rw [hvisits]
    exact List.mem_cons_self
  obtain ⟨v, hv, hexecutor⟩ := List.mem_map.1 hmem
  obtain ⟨hsender, hsame⟩ := (chain.keeps_aspects root leave w (.ofSeed 1)).2 v hv
  refine ⟨chain, hchain, v, hv, hexecutor, hsender, hkept, ?_, ?_⟩
  · exact (hsame .position fun s hs => (hkept s hs).1).symm
  · exact (hsame .dimension fun s hs => (hkept s hs).2).symm

end CommandChain
