import CommandChain.Selector.Basic
import CommandChain.Value.Parser

/-!
# Reading selectors

```text
selector := '@' type ('[' (arg (',' arg)*)? ']')? | name
arg      := key '=' '!'? value
```

`Selector.build` checks the arguments against the registry; `Selector.scan`
reads one selector and leaves the text after it; `Selector.parse` reads a whole
text.
-/

namespace CommandChain.Selector

/-- An argument alone, as far as the rules for its key and the selector type go. -/
def check (registry : SelectorRegistry) (type : SelectorType) (e : Entry ArgValue) :
    Except SelectorFault Unit :=
  match registry.argument? e.key with
  | none => .error (.unknownArgument e.key)
  | some spec =>
    if e.inverted && !spec.invertible then .error (.notInvertible e.key)
    else if !spec.shape.matchesValue e.value then .error (.shapeMismatch e.key (toString e.value))
    else if e.key == "type" && type.restriction.any (!·.overridable) then
      .error (.typeRestricted type.name)
    else .ok ()

/-- Adds an occurrence to the others of its key. -/
def addOccurrence (arguments : OrderedMap String (List Argument)) (e : Entry ArgValue) :
    OrderedMap String (List Argument) :=
  arguments.insert e.key ((arguments.get? e.key).getD [] ++ [⟨e.inverted, e.value⟩])

/-- The arguments grouped by key. -/
def grouped (written : List (Entry ArgValue)) : OrderedMap String (List Argument) :=
  written.foldl addOccurrence ∅

/-- The first key, in key order, that occurs too often. -/
def duplicated? (registry : SelectorRegistry) (arguments : OrderedMap String (List Argument)) :
    Option String :=
  (arguments.entries.find? fun (key, args) =>
    (registry.argument? key).any fun spec =>
      spec.duplication.violated (args.map (·.inverted))).map (·.1)

/-- The selector with the written arguments, if they keep the rules. -/
def build (registry : SelectorRegistry) (type : SelectorType) (written : List (Entry ArgValue)) :
    Except SelectorFault Selector := do
  written.forM (check registry type)
  let arguments := grouped written
  match duplicated? registry arguments with
  | some key => throw (.duplicated key)
  | none => return ⟨type, arguments⟩

/-- Fails with a selector fault. -/
def faulty {α : Type} (fault : SelectorFault) : Scan α := throw ⟨.selector fault, none⟩

/-- The arguments in their brackets, if a bracket stands at the cursor. -/
def scanArguments : Scan (List (Entry ArgValue)) := do
  if (← Scan.peek false) == some '[' then
    let _ ← Scan.next false
    Scan.itemsThrough (Entry.scan ['=', ',', ']'] ArgValue.scan) "]"
  else return []

def isTypeChar (c : Char) : Bool := c.isAlphanum || c == '_'

/-- The form with `@`, with the cursor at it. -/
def scanTyped (registry : SelectorRegistry) : Scan Selector := do
  let _ ← Scan.next false
  let name ← Scan.takeWhile isTypeChar
  match registry.type? name with
  | none => faulty (.unknownType name)
  | some type =>
    let written ← scanArguments
    match build registry type written with
    | .ok selector => return selector
    | .error fault => faulty fault

/-- The selector of a player's name. -/
def ofName (name : String) : Selector :=
  ⟨SelectorRegistry.nameType, grouped [⟨"name", false, .text name⟩]⟩

/-- One selector; the text after it is left unread. -/
def scan (registry : SelectorRegistry) : Scan Selector := do
  match ← Scan.peek true with
  | some '@' => scanTyped registry
  | some _ => return ofName (← Scan.string [])
  | none => Scan.fail "expected selector"

/-- Up to `n` selectors one behind the other, each with the scanner behind it. An
error is the last of them. -/
def scanEach (registry : SelectorRegistry) : Nat → Scanner → List (Except Error Selector × Scanner)
  | 0, _ => []
  | n + 1, s =>
    match scan registry s with
    | .ok selector s => (.ok selector, s) :: scanEach registry n s
    | .error e s => [(.error e, s)]

/-- Names the whole text as the place of a selector fault. -/
def placed {α : Type} (read : Scan α) (text : String) : Scan α := fun s =>
  match read s with
  | .ok a s => .ok a s
  | .error e s =>
    match e.fault with
    | .selector _ => .error { e with place := some ⟨some text, none⟩ } s
    | _ => .error e s

/-- The whole text as one selector. -/
def parse (registry : SelectorRegistry) (text : String) : Except Error Selector :=
  Scan.run (do
    let selector ← placed (scan registry) text
    Scan.expectEnd
    return selector) ArgValue.lexicon text

end CommandChain.Selector
