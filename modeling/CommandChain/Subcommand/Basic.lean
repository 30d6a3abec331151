import CommandChain.Subcommand.Fork
import CommandChain.Subcommand.Guard
import CommandChain.Subcommand.Redirect

/-!
# Subcommands

A `Subcommand` is one step of a chain: it turns a context into any number of
others. A redirect makes exactly one, a fork one for each selected entity, and a
guard lets its context pass or makes none.
-/

namespace CommandChain

inductive Subcommand where
  | redirect (r : Redirect)
  | fork (f : Fork)
  | guard (g : Guard)

namespace Subcommand

variable {W : Type} [WorldView W]

def apply (s : Subcommand) (world : W) (c : Context) : Effect Random (List Context) :=
  match s with
  | redirect r => Effect.ofExcept do return [← r.apply world c]
  | fork f => f.apply world c
  | guard g => return if ← g.passes world c then [c] else []

protected def toString : Subcommand → String
  | redirect r => toString r
  | fork f => toString f
  | guard g => toString g

instance : ToString Subcommand := ⟨Subcommand.toString⟩

/-- The place of the subcommand in a chain. -/
def place (s : Subcommand) (index : Nat) : Place := ⟨some (toString s), some index⟩

/-- Applies the subcommand as number `index` of a chain, which errors name. -/
def applyAt (s : Subcommand) (index : Nat) (world : W) (c : Context) :
    Effect Random (List Context) :=
  Effect.within (s.apply world c) (s.place index)

def isFork : Subcommand → Bool
  | fork _ => true
  | _ => false

/-- The subcommand may make no context. -/
def canPrune : Subcommand → Bool
  | redirect _ => false
  | _ => true

end Subcommand

end CommandChain
