import CommandChain.Selector.Parser

/-!
# Score expressions

`ScoreAccess` names a score: an objective, and a holder that is a name or the
one entity a selector picks. `Relation` compares two scores, and `IntRange.parse`
reads the range that a score may be asked to lie in.
-/

namespace CommandChain

/-- The lexicon of score expressions. -/
def ScoreAccess.lexicon : Lexicon where
  whitespace := [' ', '\t']
  quotes := ['"']
  trueWords := []
  falseWords := []
  symbols := ['"', '\\']

/-- Whose score is read. -/
inductive HolderExpr where
  | selector (s : Selector)
  /-- A player's name, or one with no entity behind it. -/
  | name (name : String)
  deriving BEq

protected def HolderExpr.toString : HolderExpr → String
  | selector s => toString s
  | name n => n

instance : ToString HolderExpr := ⟨HolderExpr.toString⟩

/-- A holder and an objective. -/
structure ScoreAccess where
  holder : HolderExpr
  objective : String
  deriving BEq

namespace ScoreAccess

protected def toString (a : ScoreAccess) : String := toString a.holder ++ " " ++ a.objective

instance : ToString ScoreAccess := ⟨ScoreAccess.toString⟩

/-- A string and nothing after it. -/
def scanWord : Scan String := do
  let word ← Scan.string []
  Scan.expectEnd
  return word

/-- A holder's name: any but `*`. -/
def scanName : Scan String := do
  let name ← scanWord
  if name == "*" then Scan.fail "`*` is not a valid holder here" else return name

/-- A holder. A selector must pick at most one entity. -/
def parseHolder (registry : SelectorRegistry) (text : String) : Except Error HolderExpr := do
  let text := Text.trimmed text
  if text.toList.head? == some '@' then
    let selector ← Selector.parse registry text
    if selector.isSingle then return .selector selector
    else throw ⟨.selector (.ambiguousHolder text), none⟩
  else return .name (← scanName.run lexicon text)

def parse (registry : SelectorRegistry) (holder objective : String) : Except Error ScoreAccess := do
  let holder ← parseHolder registry holder
  return ⟨holder, ← scanWord.run lexicon objective⟩

end ScoreAccess

/-- A comparison of two scores. -/
inductive Relation where
  | less
  | lessOrEqual
  | equal
  | greaterOrEqual
  | greater
  deriving DecidableEq, Repr

namespace Relation

def holds : Relation → Int64 → Int64 → Bool
  | less, a, b => a < b
  | lessOrEqual, a, b => a ≤ b
  | equal, a, b => a == b
  | greaterOrEqual, a, b => b ≤ a
  | greater, a, b => b < a

def symbol : Relation → String
  | less => "<"
  | lessOrEqual => "<="
  | equal => "="
  | greaterOrEqual => ">="
  | greater => ">"

instance : ToString Relation := ⟨symbol⟩

def all : List Relation := [less, lessOrEqual, equal, greaterOrEqual, greater]

def scan : Scan Relation := do
  let word ← Scan.consumeAny (all.map symbol) true
  match word.bind fun w => all.find? (·.symbol == w) with
  | some relation =>
    Scan.expectEnd
    return relation
  | none => Scan.fail "expected one of < <= = >= >"

def parse (text : String) : Except Error Relation := scan.run ScoreAccess.lexicon text

end Relation

/-- `a..b`, `..b`, `a..` or a single `a`. -/
def IntRange.parse (text : String) : Except Error IntRange :=
  Scan.run (do
    Scan.skipBlanks
    let range ← Scan.range
    Scan.expectEnd
    return range) ScoreAccess.lexicon text

end CommandChain
