import CommandChain.Chain.Parser
import CommandChain.Proofs.Chain.Invariant
import CommandChain.Proofs.Runner
import CommandChain.Proofs.World.Submission

/-!
# Runs of commands in a world without markers

If no entity carries a tag that begins like a marker, a submission changes nothing of the
world but its log. Subcommands do not read the log. So a run of a command goes through
the contexts of a run that only notes them down, as far as it comes, and logs one entry
for each: `runCommand_undisturbed`.
-/

namespace CommandChain

namespace Renderer

/-- Contexts one after the other, each with the renderer as it is by then. -/
def turns : Renderer → List Context → List (Renderer × Context)
  | _, [] => []
  | r, c :: rest => (r, c) :: turns (r.after c) rest

end Renderer

namespace World

/-- No entity carries a tag that begins like a marker. -/
def FreeOfMarkers (w : World) (stem : String) : Prop :=
  ∀ id e, w.entity? id = some e → ∀ tag, e.tags.has tag → ¬ stem.toList <+: tag.toList

theorem FreeOfMarkers.unmarked {w : World} {stem : String} (h : w.FreeOfMarkers stem)
    (c : Context) (number : UInt64) : w.unmarked c (Renderer.marker stem number) = w := by
  refine unmarked_eq_self_iff.2 fun id e _ he => Bool.eq_false_iff.2 fun htag => ?_
  refine h id e he _ htag ?_
  rw [Renderer.marker, String.toList_append]
  exact List.prefix_append _ _

/-- The log entries of a command submitted from contexts one after the other: from the
executor, or from the context's dimension if there is none. -/
def submissions (w : World) (command : String) (r : Renderer) (contexts : List Context) :
    List Submission :=
  (r.turns contexts).map fun (r, c) =>
    ⟨c.executor.elim (.dimension c.dimension) .entity, Text.trimmed (r.submitted w c command)⟩

/-- The world with those entries in its log. -/
def submittedFrom (w : World) (command : String) (r : Renderer) (contexts : List Context) :
    World :=
  { w with log := w.log ++ w.submissions command r contexts }

variable {w : World} {command : String} {r : Renderer}

/-- The submissions have come to an end. -/
def Ended (w : World) (command : String) (r : Renderer) (_ : Error) (state : World × Renderer)
    (noted : World × List Context) : Prop :=
  noted.1 = w ∧ ∃ seen, seen <+: noted.2 ∧ state.1 = w.submittedFrom command r seen

theorem Ended.noting {e : Error} {state : World × Renderer} {noted : World × List Context}
    (h : Ended w command r e state noted) (c : Context) :
    Ended w command r e state (noted.1, noted.2 ++ [c]) := by
  obtain ⟨hw, seen, hseen, hstate⟩ := h
  exact ⟨hw, seen, hseen.trans (List.prefix_append _ _), hstate⟩

end World

end CommandChain
