import CommandChain.Scanner.Token
import CommandChain.Value.Printer

/-!
# Reading values

```text
value  := map | list | quoted | '~' number? | range | number | bool | text
map    := '{' (entry (',' entry)*)? '}'
entry  := key '=' '!'? value
list   := '[' (value (',' value)*)? ']'
range  := int '..' int? | '..' int
```

Numbers and booleans are tried first. A token that goes on where a number or a
boolean would end is read again as text.
-/

namespace CommandChain

/-- The lexicon of selectors and their values. -/
def ArgValue.lexicon : Lexicon where
  whitespace := [' ', '\t', '\n', '\r']
  quotes := ['"']
  trueWords := ["true"]
  falseWords := ["false"]
  symbols := ['=', '!', '{', '[', '@', '"', '\\', '~', '^']

/-- `key=value` or `key=!value`. -/
def Entry.scan {α : Type} (stops : List Char) (value : Scan α) : Scan (Entry α) := do
  let key ← Scan.string stops
  Scan.expect "=" true
  let inverted ← Scan.accept "!" true
  return ⟨key, inverted, ← value⟩

namespace ArgValue

/-- Characters that end an unquoted value. -/
def stops : List Char := [',', ']', '}']

/-- A value may end at the cursor. -/
def atTerminator : Scan Bool := do
  match ← Scan.peek false with
  | none => return true
  | some c => return (← get).isBlank c || stops.contains c

/-- The value, if it may end at the cursor. -/
def terminated (value : ArgValue) : Scan ArgValue := do
  if ← atTerminator then return value else Scan.fail "unexpected text after value"

/-- The token as text. -/
def bareText : Scan ArgValue := text <$> Scan.unquoted stops

def numberOrText : Scan ArgValue := do
  let start ← get
  let number ← Scan.number
  if (← Scan.testAny [".."] false).isSome then
    set start
    range <$> Scan.range
  else if ← atTerminator then
    match number.integer with
    | some n => return int n
    | none => return float number.value
  else
    set start
    bareText

def boolOrText : Scan ArgValue := do
  let start ← get
  let value ← Scan.bool
  if ← atTerminator then return bool value
  else
    set start
    bareText

/-- `~` with the number that directly follows it. -/
def relativeScan : Scan ArgValue := do
  let _ ← Scan.next false
  terminated (relative (← Scan.numberOrZero))

/-- A value that is neither bracketed, quoted nor relative. -/
def token : Scan ArgValue := do
  if (← Scan.testAny [".."] false).isSome then terminated (range (← Scan.range))
  else if ← Scan.atNumber then numberOrText
  else if (← Scan.testAny ["true", "false"] false).isSome then boolOrText
  else bareText

/-- One value, with `nested` to read the values inside it. -/
def scanWith (nested : Scan ArgValue) : Scan ArgValue := do
  match ← Scan.peek true with
  | none => Scan.fail "expected value"
  | some '{' => map <$> Scan.bracketed "\x7b" "\x7d" (Entry.scan ['=', ',', '}'] nested)
  | some '[' => list <$> Scan.bracketed "[" "]" nested
  | some '"' => text <$> Scan.quoted
  | some '~' => relativeScan
  | some _ => token

/-- One value. Nested values start behind the bracket that holds them. -/
def scan (s : Scanner) : EStateM.Result Error Scanner ArgValue :=
  scanWith (Scan.beyond s fun t _ => scan t) s
termination_by s.rest.length

end ArgValue

end CommandChain
