import CommandChain.Block.Predicate
import CommandChain.Score.Access
import CommandChain.Selector.Resolution

/-!
# Guards

A `Guard` lets a context pass if its `Condition` holds, or with `unless` if it
does not. A condition on something missing, such as a block that is not loaded
or a score that is not set, is false.

`ScoreAccess.value` is the score that an expression names in a context. A name
stands for the player who has it, or for a holder without entity if there is no
such player; a selector for the first entity it picks.
-/

namespace CommandChain

section

variable {W : Type} [WorldView W]

/-- The holder meant in a context; `none` if a selector picks nothing. -/
def HolderExpr.resolve (h : HolderExpr) (world : W) (c : Context) :
    Effect Random (Option ScoreHolder) :=
  match h with
  | selector s => do return (← s.resolve world c).head?.map .entity
  | name n => return some (((WorldView.playerNamed? world n).map .entity).getD (.fake n))

/-- The score; `none` if there is no holder or no score. -/
def ScoreAccess.value (a : ScoreAccess) (world : W) (c : Context) :
    Effect Random (Option Int64) := do
  let holder ← a.holder.resolve world c
  return holder.bind (WorldView.score? world a.objective)

end

/-- What a guard tests. -/
inductive Condition where
  /-- The selector picks some entity. -/
  | entity (selector : Selector)
  | block (position : PositionExpr) (predicate : BlockPredicate)
  | score (left : ScoreAccess) (relation : Relation) (right : ScoreAccess)
  | scoreMatches (access : ScoreAccess) (range : IntRange)

namespace Condition

variable {W : Type} [WorldView W]

/-- The block at a position, if it is loaded. -/
def blockAt (position : PositionExpr) (world : W) (c : Context) : Except Error (Option Block) := do
  let point ← position.resolve (← c.point world) c.rotation
  return WorldView.block? world c.dimension (.containing point)

/-- Two scores are set and compare. -/
def related (relation : Relation) : Option Int64 → Option Int64 → Bool
  | some left, some right => relation.holds left right
  | _, _ => false

def holds (condition : Condition) (world : W) (c : Context) : Effect Random Bool :=
  match condition with
  | entity selector => return !(← selector.resolve world c).isEmpty
  | block position predicate => do
    return (← Effect.ofExcept (blockAt position world c)).any predicate.holds
  | score left relation right => do
    let left ← left.value world c
    return related relation left (← right.value world c)
  | scoreMatches access range => return (← access.value world c).any range.contains

protected def toString : Condition → String
  | entity selector => "entity " ++ toString selector
  | block position predicate => "block " ++ toString position ++ " " ++ toString predicate
  | score left relation right =>
    "score " ++ toString left ++ " " ++ toString relation ++ " " ++ toString right
  | scoreMatches access range => "score " ++ toString access ++ " matches " ++ toString range

instance : ToString Condition := ⟨Condition.toString⟩

end Condition

structure Guard where
  condition : Condition
  /-- Written with `unless`. -/
  negated : Bool

namespace Guard

variable {W : Type} [WorldView W]

/-- The context may pass. -/
def passes (g : Guard) (world : W) (c : Context) : Effect Random Bool :=
  return (← g.condition.holds world c) != g.negated

protected def toString (g : Guard) : String :=
  (if g.negated then "unless " else "if ") ++ toString g.condition

instance : ToString Guard := ⟨Guard.toString⟩

end Guard

end CommandChain
