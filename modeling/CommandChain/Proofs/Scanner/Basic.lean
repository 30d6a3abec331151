import CommandChain.Proofs.Effect
import CommandChain.Scanner.Token

/-!
# Whole texts and lists

A text is read if the reader succeeds on it, wherever it stops. What holds of every item
that a reader gives holds of the lists read with it.
-/

namespace CommandChain

namespace Scan

theorem run_eq_ok_iff {α : Type} {x : Scan α} {lexicon : Lexicon} {text : String} {a : α} :
    x.run lexicon text = .ok a ↔ ∃ t, x (.ofText lexicon text) = .ok a t := by
  unfold Scan.run
  cases x (.ofText lexicon text) with
  | ok b t => simp
  | error e t => simp

variable {α : Type} {P : α → Prop} {item : Scan α} {close : String}

/-- A round of the loop reads an item, and either the closing mark or a comma behind it;
the other items follow the comma. -/
inductive Separated (item : Scan α) (close : String) : Scanner → List α → Scanner → Prop where
  | last {s s₁ s₂ t : Scanner} {a : α} : item s = .ok a s₁ → accept "," true s₁ = .ok false s₂ →
    expect close true s₂ = .ok () t → Separated item close s [a] t
  | further {s s₁ s₂ t : Scanner} {a : α} {l : List α} : item s = .ok a s₁ →
    accept "," true s₁ = .ok true s₂ → s₂.rest.length < s.rest.length →
    Separated item close s₂ l t → Separated item close s (a :: l) t

theorem commaSeparated_eq_ok_iff {s t : Scanner} {l : List α} :
    commaSeparated item close s = .ok l t ↔ Separated item close s l t := by
  constructor
  · intro h
    fun_induction commaSeparated item close s generalizing l with
    | case3 s a s₁ ha s₂ hcomma =>
      obtain ⟨_, t', hclose, hl⟩ := bind_eq_ok_iff.1 h
      cases hl
      exact .last ha hcomma hclose
    | case5 s a s₁ ha s₂ hcomma hless items s₃ hitems ih =>
      cases h
      exact .further ha hcomma hless (ih hitems)
    | case1 | case2 | case4 | case6 => cases h
  · intro h
    induction h with
    | @last s s₁ s₂ t a ha hcomma hclose =>
      have hreturn : (expect close true >>= fun _ => pure [a]) s₂ = .ok [a] t := bind_of_ok hclose
      rw [commaSeparated, ha]
      simp only [hcomma]
      exact hreturn
    | further ha hcomma hless _ ih =>
      rw [commaSeparated, ha]
      simp only [hcomma, if_pos hless, ih]

/-- What every item has that `item` gives, every item of a list has. -/
theorem commaSeparated_forall (hitem : ∀ {s a t}, item s = .ok a t → P a) {s t : Scanner}
    {l : List α} (h : commaSeparated item close s = .ok l t) : ∀ a ∈ l, P a := by
  induction commaSeparated_eq_ok_iff.1 h with
  | last ha => exact List.forall_mem_singleton.2 (hitem ha)
  | further ha _ _ hrest ih =>
    exact List.forall_mem_cons.2 ⟨hitem ha, ih (commaSeparated_eq_ok_iff.2 hrest)⟩

theorem itemsThrough_forall (hitem : ∀ {s a t}, item s = .ok a t → P a) {s t : Scanner}
    {l : List α} (h : itemsThrough item close s = .ok l t) : ∀ a ∈ l, P a := by
  obtain ⟨closed, s', _, h⟩ := bind_eq_ok_iff.1 h
  cases closed with
  | true => cases h; simp
  | false => exact commaSeparated_forall hitem h

end Scan

end CommandChain
