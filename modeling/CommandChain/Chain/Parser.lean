import CommandChain.Chain.Basic
import CommandChain.Coordinate.Parser

/-!
# Reading chains

A `Phrase` is a subcommand as it is written: its keyword, with the texts of its
arguments still to be read. A chain is read phrase by phrase, and the first
malformed argument is the error.
-/

namespace CommandChain

/-- The text of a condition. -/
inductive ConditionText where
  | entity (selector : String)
  | block (position predicate : String)
  | score (holder objective relation source sourceObjective : String)
  | scoreMatches (holder objective range : String)
  deriving DecidableEq, Repr

/-- A subcommand with unread arguments. -/
inductive Phrase where
  | fork (kind : ForkKind) (selector : String)
  | facingEntity (selector anchor : String)
  /-- When `centered`, whole `x` and `z` stand for the middle of their block. -/
  | positioned (centered : Bool) (position : String)
  | rotated (rotation : String)
  | facing (position : String)
  | inDimension (dimension : String)
  | anchored (anchor : String)
  | align (axes : String)
  | guard (negated : Bool) (condition : ConditionText)
  deriving DecidableEq, Repr

/-- One word that names a dimension. -/
def DimensionId.scan : Scan DimensionId := do
  Scan.skipBlanks
  let name ← Scan.unquoted []
  Scan.expectEnd
  return .named name

def DimensionId.parse (text : String) : Except Error DimensionId := scan.run .ascii text

def ConditionText.parse (registry : SelectorRegistry) : ConditionText → Except Error Condition
  | entity selector => return .entity (← Selector.parse registry selector)
  | block position predicate =>
    return .block (← PositionExpr.parse position) (← BlockPredicate.parse predicate)
  | score holder objective relation source sourceObjective => do
    let left ← ScoreAccess.parse registry holder objective
    let relation ← Relation.parse relation
    return .score left relation (← ScoreAccess.parse registry source sourceObjective)
  | scoreMatches holder objective range =>
    return .scoreMatches (← ScoreAccess.parse registry holder objective) (← IntRange.parse range)

/-- Reads the arguments. The position to face is centered. -/
def Phrase.parse (registry : SelectorRegistry) : Phrase → Except Error Subcommand
  | fork kind selector => return .fork ⟨kind, ← Selector.parse registry selector⟩
  | facingEntity selector anchor => do
    let selector ← Selector.parse registry selector
    return .fork ⟨.facingEntity (← Anchor.parse anchor), selector⟩
  | positioned centered position => do
    let position ←
      if centered then PositionExpr.parseCentered position else PositionExpr.parse position
    return .redirect (.positioned position)
  | rotated rotation => return .redirect (.rotated (← RotationExpr.parse rotation))
  | facing position => return .redirect (.facing (← PositionExpr.parseCentered position))
  | inDimension dimension => return .redirect (.inDimension (← DimensionId.parse dimension))
  | anchored anchor => return .redirect (.anchored (← Anchor.parse anchor))
  | align axes => return .redirect (.align (← Axes.parse axes))
  | guard negated condition => return .guard ⟨← condition.parse registry, negated⟩

def Chain.parse (registry : SelectorRegistry) (phrases : List Phrase) : Except Error Chain :=
  return ⟨← phrases.mapM (·.parse registry)⟩

end CommandChain
