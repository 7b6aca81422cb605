/-
# PegFlow.Machine.Run — until the machine halts

`State.settle` runs op after op. Between two halts a parse takes finitely many steps
when its program comes from a checked grammar. Calls that are open together
differ in their ruleset or their position; rounds of a loop, and tries of a left
recursive ruleset, move forward.
-/
import PegFlow.Machine.Step

namespace PegFlow

set_option autoImplicit false

/-- Run ops, `op` first, until the machine halts or stops at a fault. -/
def State.settle (p : Program) (b : Buffer) (op : Nat) (s : State) : State × Option Fault :=
  match step p b op s with
  | .next op s => s |>.settle p b op
  | .halt s => (s, none)
  | .fault f s => (s, some f)
partial_fixpoint

namespace Machine

/-- Run until the machine halts: the state then, and the fault if there is one.
A machine that has halted for good, or at a fault, stays as it is. -/
def run (p : Program) (b : Buffer) (s : State) : State × Option Fault :=
  match s.pending with
  | none => (s, none)
  | some op => State.settle p b op { s with pending := none, status := .running }

end Machine

end PegFlow
