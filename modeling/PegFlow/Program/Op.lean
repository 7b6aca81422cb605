/-
# PegFlow.Program.Op — the steps of the matching machine

An op does one small thing and names the op that runs after it. An op that can
turn out in two ways names both. Ops are addressed by their place in a program.
-/
namespace PegFlow

set_option autoImplicit false

/-- One step of the machine. -/
inductive Op where
  /-- Note position and captures, to come back to. -/
  | enter (next : Nat)
  /-- Forget the last note. -/
  | commit (next : Nat)
  /-- Go back to the last note. -/
  | rollback (next : Nat)
  /-- Note position and captures, and look ahead. -/
  | lookEnter (next : Nat)
  /-- Go back to the last note after looking ahead. -/
  | lookExit (next : Nat)
  /-- Record a null for each slot of what was skipped. -/
  | pushNulls (slots : List Nat) (next : Nat)
  /-- Start a loop. -/
  | loopEnter (body : Nat)
  /-- A round matched. One that matched nothing ends the loop, as a round that
  failed does. -/
  | loopNext (body least pass fail : Nat)
  /-- A round failed. The loop passes if at least `least` rounds matched. -/
  | loopExit (least pass fail : Nat)
  /-- Note where a capture starts. -/
  | captureStart (next : Nat)
  /-- Record the text since the capture started, or the output of the ruleset
  that matched it. -/
  | captureEnd (slot : Nat) (ofRule : Bool) (next : Nat)
  /-- Forget where the capture started. -/
  | captureFail (next : Nat)
  /-- Test the input for a terminal. -/
  | terminal (id pass fail : Nat)
  /-- Match a ruleset. -/
  | call (ruleset pass fail : Nat)
  /-- Work out the output of a rule that matched. -/
  | output (rule next : Nat)
  /-- Leave a ruleset that matched. -/
  | ret
  /-- Leave a ruleset that did not match. -/
  | retFail
  /-- The input matches. -/
  | accept
  /-- The input does not match. -/
  | reject
deriving DecidableEq, Repr, Inhabited

/-- A stretch of ops and the one to begin with, which need not be among them. -/
structure Code where
  ops : List Op
  entry : Nat
deriving DecidableEq, Repr

/-- Ops that can be put at any place `base` and go on at `pass` or `fail`. -/
abbrev Fragment := (base pass fail : Nat) → Code

namespace Fragment

def pass : Fragment := fun _ pass _ => ⟨[], pass⟩

def fail : Fragment := fun _ _ fail => ⟨[], fail⟩

def terminal (id : Nat) : Fragment := fun base pass fail => ⟨[.terminal id pass fail], base⟩

def call (ruleset : Nat) : Fragment := fun base pass fail => ⟨[.call ruleset pass fail], base⟩

/-- One, and if it fails the other. The ops of the other come first. -/
def orElse (one other : Fragment) : Fragment := fun base pass fail =>
  let second := other base pass fail
  let first := one (base + second.ops.length) pass second.entry
  ⟨second.ops ++ first.ops, first.entry⟩

/-- One, and when it passes the other. The ops of the other come first. -/
def andThen (one other : Fragment) : Fragment := fun base pass fail =>
  let second := other base pass fail
  let first := one (base + second.ops.length) second.entry fail
  ⟨second.ops ++ first.ops, first.entry⟩

/-- Undo what has happened when it fails. -/
def atomically (body : Fragment) : Fragment := fun base pass fail =>
  let code := body (base + 2) (base + 1) base
  ⟨.rollback fail :: .commit pass :: code.ops ++ [.enter code.entry], base + 2 + code.ops.length⟩

/-- Look ahead: undo what has happened whether it passes or fails. -/
def lookahead (body : Fragment) : Fragment := fun base pass fail =>
  let code := body (base + 2) base (base + 1)
  ⟨.lookExit pass :: .lookExit fail :: code.ops ++ [.lookEnter code.entry],
    base + 2 + code.ops.length⟩

/-- Look ahead and pass when it fails. -/
def negativeLookahead (body : Fragment) : Fragment := fun base pass fail =>
  let code := body (base + 2) (base + 1) base
  ⟨.lookExit pass :: .lookExit fail :: code.ops ++ [.lookEnter code.entry],
    base + 2 + code.ops.length⟩

/-- Pass even if it fails, with nulls in its slots. -/
def optional (slots : List Nat) (body : Fragment) : Fragment := fun base pass _ =>
  if slots.isEmpty then body base pass pass
  else
    let code := body (base + 1) pass base
    ⟨.pushNulls slots pass :: code.ops, code.entry⟩

/-- Again and again, at least `least` times. -/
def loop (least : Nat) (body : Fragment) : Fragment := fun base pass fail =>
  let code := body (base + 2) (base + 1) base
  ⟨.loopExit least pass fail :: .loopNext code.entry least pass fail :: code.ops ++
    [.loopEnter code.entry], base + 2 + code.ops.length⟩

/-- Record what matched. -/
def capture (slot : Nat) (ofRule : Bool) (body : Fragment) : Fragment := fun base pass fail =>
  let code := body (base + 2) base (base + 1)
  ⟨.captureEnd slot ofRule pass :: .captureFail fail :: code.ops ++ [.captureStart code.entry],
    base + 2 + code.ops.length⟩

/-- Work out the output of a rule when its patterns pass; the ruleset is left at
`done`. -/
def rule (index done : Nat) (patterns : Fragment) : Fragment := fun base _ fail =>
  let code := patterns (base + 1) base fail
  ⟨.output index done :: code.ops, code.entry⟩

end Fragment

end PegFlow
