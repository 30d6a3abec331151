import CommandChain.Proofs.Selector.Resolution
import CommandChain.Subcommand.Guard
import Mathlib.Data.List.Perm.Subperm

/-!
# Selectors of random order

The random source decides which of the entities that a selector is after it picks, and in
which order, but not how many (`exists_picked`). So two resolutions of a selector differ by
the choice only, and not even by that if all are picked; and whether any is picked is the
same from every source, which makes `if entity` and `unless entity` complementary
(`resolve_from_two_sources`).
-/

namespace CommandChain

/-- A guard asks whether any entity is picked. -/
theorem Guard.passes_entity {W : Type} [WorldView W] {s : Selector} {w : W} {c : Context}
    {random after : Random} {ids : List EntityId} (h : s.resolve w c random = .ok ids after)
    (negated : Bool) :
    Guard.passes ⟨.entity s, negated⟩ w c random = .ok ((!ids.isEmpty) != negated) after := by
  have hholds : (Condition.entity s).holds w c random = .ok (!ids.isEmpty) after :=
    bind_of_ok h
  unfold passes
  rw [bind_of_ok hholds]
  rfl

namespace Selector

variable {s : Selector} {w : World} {c : Context}

/-- How many of `n` entities the limit leaves. -/
def kept (s : Selector) (n : Nat) : Nat := s.limit?.elim n (min · n)

theorem length_limited (s : Selector) (ids : List EntityId) :
    (s.limited ids).length = s.kept ids.length := by
  obtain ⟨l, hperm, hlim⟩ := exists_limited s ids
  rw [hlim, kept, ← hperm.length_eq]
  cases s.limit? with
  | none => rfl
  | some limit => exact List.length_take

theorem nodup_limited {ids : List EntityId} (h : ids.Nodup) : (s.limited ids).Nodup := by
  obtain ⟨l, hperm, hlim⟩ := exists_limited s ids
  have hl : l.Nodup := hperm.nodup_iff.2 h
  rw [hlim]
  cases s.limit? with
  | none => exact hl
  | some limit => exact (List.take_sublist limit l).nodup hl

/-- From every random source a selector picks entities of one list, each once and the same
number of them. -/
theorem exists_picked (hw : w.Consistent) (hp : w.PlayersTyped) (hs : s.Standard) {centre : Vec3}
    (hc : s.centre w c = .ok centre) :
    ∃ all : List EntityId, all.Nodup ∧
      (∀ id, id ∈ all ↔ ∃ e, w.entity? id = some e ∧ s.Selects w c centre id e) ∧
      ∀ random, ∃ ids after, s.resolve w c random = .ok ids after ∧ ids.Nodup ∧ ids ⊆ all ∧
        ids.length = s.kept all.length := by
  obtain ⟨all, -, hnodup, hmem, -⟩ := exists_listing hw hp hs hc (.ofSeed 0)
  refine ⟨all, hnodup, hmem, fun random => ?_⟩
  obtain ⟨listed, after, hlnodup, hlmem, hres⟩ := exists_listing hw hp hs hc random
  have hperm : listed.Perm all :=
    (List.perm_ext_iff_of_nodup hlnodup hnodup).2 fun id => (hlmem id).trans (hmem id).symm
  refine ⟨s.limited listed, after, hres, nodup_limited hlnodup, ?_, ?_⟩
  · exact fun id hid => hperm.mem_iff.1 (s.limited_subset listed hid)
  · rw [length_limited, hperm.length_eq]

theorem kept_eq_self {n : Nat} (h : ∀ limit, s.limit? = some limit → n ≤ limit) :
    s.kept n = n := by
  unfold kept
  cases hl : s.limit? with
  | none => rfl
  | some limit =>
    have := h limit hl
    show min limit n = n
    omega

/-- From any two random sources a selector picks the same number of entities, each once, of
those that it is after, and the same entities if the limit leaves all of them; so what
passes `if entity` from the one is held back by `unless entity` from the other, and what
does not pass is let through. -/
theorem resolve_from_two_sources (hw : w.Consistent) (hp : w.PlayersTyped) {text : String}
    (hs : parse .standard text = .ok s) {here : Vec3} (hc : c.point w = .ok here) :
    ∃ centre, s.centre w c = .ok centre ∧ ∃ all : List EntityId, all.Nodup ∧
      (∀ id, id ∈ all ↔ ∃ e, w.entity? id = some e ∧ s.Selects w c centre id e) ∧
      ∀ random random', ∃ ids ids' after after',
        s.resolve w c random = .ok ids after ∧ s.resolve w c random' = .ok ids' after' ∧
        ids.length = ids'.length ∧ ids.Nodup ∧ ids'.Nodup ∧ ids ⊆ all ∧ ids' ⊆ all ∧
        ((∀ limit, s.limit? = some limit → all.length ≤ limit) → ids.Perm ids') ∧
        ∃ passes, Guard.passes ⟨.entity s, false⟩ w c random = .ok passes after ∧
          Guard.passes ⟨.entity s, true⟩ w c random' = .ok (!passes) after' := by
  have hst := standard_of_parse hs
  obtain ⟨centre, hcentre⟩ := exists_centre hc
  obtain ⟨all, hnodup, hmem, hpicked⟩ := exists_picked hw hp hst hcentre
  refine ⟨centre, hcentre, all, hnodup, hmem, fun random random' => ?_⟩
  obtain ⟨ids, after, hres, hids, hsub, hlen⟩ := hpicked random
  obtain ⟨ids', after', hres', hids', hsub', hlen'⟩ := hpicked random'
  have hlength : ids.length = ids'.length := hlen.trans hlen'.symm
  refine ⟨ids, ids', after, after', hres, hres', hlength, hids, hids', hsub, hsub',
    fun hlimit => ?_, !ids.isEmpty, ?_, ?_⟩
  · rw [kept_eq_self hlimit] at hlen hlen'
    have hall : ids.Perm all := (List.subperm_of_subset hids hsub).perm_of_length_le hlen.ge
    have hall' : ids'.Perm all := (List.subperm_of_subset hids' hsub').perm_of_length_le hlen'.ge
    exact hall.trans hall'.symm
  · rw [Guard.passes_entity hres, Bool.bne_false]
  · have hempty : ids'.isEmpty = ids.isEmpty := by
      rw [Bool.eq_iff_iff, List.isEmpty_iff_length_eq_zero, List.isEmpty_iff_length_eq_zero,
        hlength]
    rw [Guard.passes_entity hres', hempty, Bool.bne_true]

/-- Two of three cows are asked for, and two sources give different ones. -/
theorem resolve_from_two_sources_cows :
    let w := (World.perform [.spawn (.ofType "cow"), .spawn (.ofType "cow"),
      .spawn (.ofType "pig"), .spawn (.ofType "cow")]).2
    let c := Context.atPoint ⟨0, .server⟩ .overworld .zero
    ∃ s, parse .standard "@r[type=cow,c=2]" = .ok s ∧ s.type.order = .random ∧
      ∃ ids ids' after after',
        s.resolve w c (.ofSeed 0) = .ok ids after ∧ s.resolve w c (.ofSeed 2) = .ok ids' after' ∧
        ids.length = ids'.length ∧ ids = [⟨0, 1⟩, ⟨1, 1⟩] ∧ ids' = [⟨3, 1⟩, ⟨1, 1⟩] ∧
        ∃ passes, Guard.passes ⟨.entity s, false⟩ w c (.ofSeed 0) = .ok passes after ∧
          Guard.passes ⟨.entity s, true⟩ w c (.ofSeed 2) = .ok (!passes) after' := by
  intro w c
  have hw : w.Consistent := World.consistent_perform _
  have hp : w.PlayersTyped := by decide +kernel
  have hall : (parse .standard "@r[type=cow,c=2]").toOption.any fun s =>
      s.type.order = .random ∧ value? (s.resolve w c (.ofSeed 0)) = some [⟨0, 1⟩, ⟨1, 1⟩] ∧
        value? (s.resolve w c (.ofSeed 2)) = some [⟨3, 1⟩, ⟨1, 1⟩] := by
    decide +kernel
  obtain ⟨s, hs, hpicks⟩ := exists_ok_of_any hall
  obtain ⟨horder, hfirst, hsecond⟩ := of_decide_eq_true hpicks
  have hc : c.point w = .ok .zero := rfl
  obtain ⟨centre, -, all, -, -, htwo⟩ := resolve_from_two_sources hw hp hs hc
  obtain ⟨ids, ids', after, after', hres, hres', hlen, -, -, -, -, -, hguards⟩ :=
    htwo (.ofSeed 0) (.ofSeed 2)
  rw [hres] at hfirst
  rw [hres'] at hsecond
  exact ⟨s, hs, horder, ids, ids', after, after', hres, hres', hlen, Option.some.inj hfirst,
    Option.some.inj hsecond, hguards⟩

end Selector

end CommandChain
