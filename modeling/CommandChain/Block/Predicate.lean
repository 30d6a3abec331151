import CommandChain.Block.Basic
import CommandChain.Scanner.Token

/-!
# Block predicates

A `BlockPredicate` asks for a block type and for the values of some states:
`stone`, `wheat[age=7]`, `chest["facing":"north"]`. Keys and text values may be
quoted, and `:` may stand for `=`.
-/

namespace CommandChain

structure BlockPredicate where
  /-- With namespace. -/
  id : String
  /-- The states asked for, in written order. -/
  states : List (String × StateValue)
  deriving DecidableEq, Repr

namespace BlockPredicate

def ofId (id : String) : BlockPredicate := ⟨qualify id, []⟩

/-- Also asks for a state. -/
def withState (p : BlockPredicate) (name : String) (value : StateValue) : BlockPredicate :=
  { p with states := p.states ++ [(name, value)] }

def holds (p : BlockPredicate) (b : Block) : Bool :=
  b.id == p.id && p.states.all fun (name, value) => b.state? name == some value

def stateText (s : String × StateValue) : String := s.1 ++ "=" ++ toString s.2

protected def toString (p : BlockPredicate) : String :=
  if p.states.isEmpty then p.id
  else p.id ++ "[" ++ ",".intercalate (p.states.map stateText) ++ "]"

instance : ToString BlockPredicate := ⟨BlockPredicate.toString⟩

def lexicon : Lexicon where
  whitespace := [' ', '\t']
  quotes := ['"']
  trueWords := ["true"]
  falseWords := ["false"]
  symbols := ['[', ']', '=', '"', '{', '}']

/-- The meaning of an unquoted word. -/
def wordValue : String → StateValue
  | "true" => .bool true
  | "false" => .bool false
  | word => .text word

def scanValue : Scan StateValue := do
  match ← Scan.peek true with
  | none => Scan.fail "expected state value"
  | some '"' => .text <$> Scan.quoted
  | some _ =>
    if ← Scan.atNumber then .int <$> Scan.int
    else wordValue <$> Scan.unquoted [',', ']']

/-- `key=value` or `key:value`. -/
def scanState : Scan (String × StateValue) := do
  let key ← Scan.string ['=', ':', ',', ']']
  if (← Scan.consumeAny ["=", ":"] true).isNone then
    Scan.fail "expected `=`"
  else return (key, ← scanValue)

def scanStates : Scan (List (String × StateValue)) := do
  if ← Scan.accept "[" true then Scan.itemsThrough scanState "]" else return []

def scan : Scan BlockPredicate := do
  Scan.skipBlanks
  let id ← Scan.unquoted ['[']
  let states ← scanStates
  Scan.expectEnd
  return ⟨qualify id, states⟩

def parse (text : String) : Except Error BlockPredicate := scan.run lexicon text

end BlockPredicate

end CommandChain
