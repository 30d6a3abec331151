import CommandChain.Subcommand.Basic

/-!
# Chains

A `Chain` is a sequence of subcommands. `Chain.visit` evaluates it depth first:
it runs an action on every context that the whole chain makes of a first one,
from left to right, and later branches see what the action has changed.
-/

namespace CommandChain

/-- Subcommands in the order in which they are applied. -/
structure Chain where
  subcommands : List Subcommand

namespace Chain

def empty : Chain := ⟨[]⟩

instance : EmptyCollection Chain := ⟨empty⟩

instance : Inhabited Chain := ⟨empty⟩

instance : Append Chain := ⟨fun a b => ⟨a.subcommands ++ b.subcommands⟩⟩

def length (c : Chain) : Nat := c.subcommands.length

def isEmpty (c : Chain) : Bool := c.subcommands.isEmpty

def get? (c : Chain) (index : Nat) : Option Subcommand := c.subcommands[index]?

protected def toString (c : Chain) : String := " ".intercalate (c.subcommands.map toString)

instance : ToString Chain := ⟨Chain.toString⟩

end Chain

/-- Runs `action` on every context that the subcommands make of one, the first of
them being number `index` of a chain. Gives the number of runs; the first error
ends them. -/
def visit {W : Type} [WorldView W] (action : Context → Effect W Unit) :
    List Subcommand → Nat → Context → Effect (W × Random) Nat
  | [], _, c => do
    Effect.onFirst (action c)
    return 1
  | s :: rest, index, c => do
    let children ← Effect.onSecond fun world => s.applyAt index world c
    children.foldlM (fun count child => return count + (← visit action rest (index + 1) child)) 0

/-- Runs `action` on every context that the chain makes of `root`. -/
def Chain.visit {W : Type} [WorldView W] (chain : Chain) (root : Context)
    (action : Context → Effect W Unit) : Effect (W × Random) Nat :=
  CommandChain.visit action chain.subcommands 0 root

end CommandChain
