import CommandChain.Identifier

/-!
# Scores

A `Scoreboard` keeps one integer for each holder of an objective. Holders are
entities, or names with no entity behind them.
-/

namespace CommandChain

/-- Whose score it is. -/
inductive ScoreHolder where
  | entity (id : EntityId)
  | fake (name : String)
  deriving DecidableEq, Repr

protected def ScoreHolder.toString : ScoreHolder → String
  | entity id => toString id
  | fake name => name

instance : ToString ScoreHolder := ⟨ScoreHolder.toString⟩

/-- The scores of one objective. -/
structure Objective where
  ofEntities : OrderedMap EntityId Int64
  ofNames : OrderedMap String Int64

namespace Objective

def empty : Objective := ⟨∅, ∅⟩

def get? (o : Objective) : ScoreHolder → Option Int64
  | .entity id => o.ofEntities.get? id
  | .fake name => o.ofNames.get? name

def set (o : Objective) (holder : ScoreHolder) (value : Int64) : Objective :=
  match holder with
  | .entity id => { o with ofEntities := o.ofEntities.insert id value }
  | .fake name => { o with ofNames := o.ofNames.insert name value }

theorem get?_set (o : Objective) (holder holder' : ScoreHolder) (value : Int64) :
    (o.set holder value).get? holder' =
      if holder' = holder then some value else o.get? holder' := by
  cases holder <;> cases holder' <;> simp [set, get?, OrderedMap.get?_insert]

end Objective

structure Scoreboard where
  objectives : OrderedMap String Objective

namespace Scoreboard

def empty : Scoreboard := ⟨∅⟩

instance : EmptyCollection Scoreboard := ⟨empty⟩

def hasObjective (b : Scoreboard) (name : String) : Bool := b.objectives.contains name

/-- Adds an objective; one that exists keeps its scores. -/
def addObjective (b : Scoreboard) (name : String) : Scoreboard :=
  if b.hasObjective name then b else ⟨b.objectives.insert name .empty⟩

/-- Sets a score, in a new objective if there is none of that name. -/
def set (b : Scoreboard) (objective : String) (holder : ScoreHolder) (value : Int64) : Scoreboard :=
  ⟨(b.addObjective objective).objectives.modify objective (·.set holder value)⟩

def get? (b : Scoreboard) (objective : String) (holder : ScoreHolder) : Option Int64 :=
  (b.objectives.get? objective).bind (·.get? holder)

theorem get?_addObjective (b : Scoreboard) (name objective : String) (holder : ScoreHolder) :
    (b.addObjective name).get? objective holder = b.get? objective holder := by
  unfold addObjective hasObjective OrderedMap.contains get?
  cases hn : b.objectives.get? name with
  | some o => rfl
  | none =>
    simp only [Option.isSome_none, Bool.false_eq_true, if_false, OrderedMap.get?_insert,
      Std.LawfulEqOrd.compare_eq_iff_eq]
    split
    · next ho => subst ho; rw [hn]; cases holder <;> rfl
    · rfl

theorem get?_set (b : Scoreboard) (objective objective' : String) (holder holder' : ScoreHolder)
    (value : Int64) :
    (b.set objective holder value).get? objective' holder' =
      if objective' = objective ∧ holder' = holder then some value
      else b.get? objective' holder' := by
  rw [← get?_addObjective b objective objective']
  have hnew : ((b.addObjective objective).objectives.get? objective).isSome := by
    unfold addObjective hasObjective OrderedMap.contains
    split
    · assumption
    · rw [OrderedMap.get?_insert_self]; rfl
  unfold set get?
  rw [OrderedMap.get?_modify]
  by_cases ho : objective' = objective
  · subst ho
    obtain ⟨o, hget⟩ := Option.isSome_iff_exists.1 hnew
    simp [hget, Objective.get?_set]
  · simp [ho]

end Scoreboard

end CommandChain
