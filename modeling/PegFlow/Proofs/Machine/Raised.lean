/-
# PegFlow.Proofs.Machine.Raised -- what a run itself may stop at

A step stops at a fault of a value, of a host function, of a read or of the machine
(`Fault.Raised`, `Machine.step_raises`). That the grammar does not match, or not all of the
text, is never such a fault: it is what is made of a run that has come to its end.
-/
import PegFlow.Proofs.Machine.Shape
import PegFlow.Proofs.Template.Faults

namespace PegFlow

set_option autoImplicit false

/-- A fault that a step may stop at. -/
def Fault.Raised : Fault → Prop
  | .noMatch => False
  | .unconsumedInput => False
  | .writeAfterClose => False
  | .inputOutput _ => False
  | _ => True

/-- The result is a value or a fault that a step may stop at. -/
def Raises {α : Type} (x : Except Fault α) : Prop := ∀ f, x = .error f → f.Raised

namespace Raises

variable {α β : Type}

theorem ok (a : α) : Raises (.ok a : Except Fault α) := fun _ h => nomatch h

theorem error {f : Fault} (h : f.Raised) : Raises (.error f : Except Fault α) := by
  rintro _ ⟨⟩
  exact h

theorem bind {x : Except Fault α} {f : α → Except Fault β} (h : Raises x) (next : ∀ a, Raises (f a)) :
    Raises (x >>= f) :=
  FailsWith.bind h next

end Raises

theorem Fault.ofRead_raised (e : ReadError) : (ofRead e).Raised := by
  cases e <;> exact trivial

/-! ## Templates -/

theorem Scope.matchedText_raises (s : Scope) : Raises s.matchedText := by
  rw [Scope.matchedText]
  split
  · exact .ok _
  · exact .error (Fault.ofRead_raised _)

theorem FailsWith.raises {α : Type} {x : Except Fault α} (h : FailsWith Fault.OfValue x) : Raises x :=
  h.imp fun f ofValue => by
    cases f with
    | access | invalidSpread | invalidPivot | callback => exact trivial
    | _ => exact ofValue.elim

namespace Template

mutual

theorem eval_raises (s : Scope) : ∀ t : Template, Raises (t.eval s)
  | ⟨kind, _, _⟩ => (evalKind_raises s kind).bind fun _ => (reach_fails _ _).raises

theorem evalKind_raises (s : Scope) : ∀ k : TemplateKind, Raises (evalKind s k)
  | .literal _ => .ok _
  | .backRef 0 _ => s.matchedText_raises
  | .backRef (_ + 1) _ => .ok _
  | .constant _ => .ok _
  | .location .position => .ok _
  | .location .length => .ok _
  | .spread inner => eval_raises s inner
  | .object members => (evalMembers_raises s members []).bind fun _ => .ok _
  | .array items => (evalParts_raises s items).bind fun _ => .ok _
  | .call name args => by
      rw [evalKind]
      split
      · exact (evalParts_raises s args).bind fun _ => (invoke_fails _ _ _).raises
      · exact .error trivial
  | .pivot inner => (eval_raises s inner).bind fun _ => (Value.pivot_fails _).raises

theorem evalParts_raises (s : Scope) : ∀ ts : List Template, Raises (evalParts s ts)
  | [] => .ok _
  | ⟨kind, _, _⟩ :: rest => (evalKind_raises s kind).bind fun _ => (parts_fails _ _ _ _).raises.bind fun _ =>
      (evalParts_raises s rest).bind fun _ => .ok _

theorem evalMembers_raises (s : Scope) : ∀ (ms : List Member) (built : Keyed Value),
    Raises (evalMembers s built ms)
  | [], _ => .ok _
  | .pair key ⟨kind, access, _⟩ :: rest, built => by
      rw [evalMembers]
      refine (evalKind_raises s kind).bind fun _ => (reach_fails _ _).raises.bind fun v => ?_
      split
      · exact evalMembers_raises s rest _
      · exact evalMembers_raises s rest _
  | .merge value :: rest, built => (eval_raises s value).bind fun _ =>
      (Value.memberParts_fails _).raises.bind fun _ => evalMembers_raises s rest _

end

end Template

theorem State.ruleOutput_raises (scope : Scope) (template : Option Template) :
    Raises (ruleOutput scope template) := by
  cases template with
  | none => exact scope.matchedText_raises
  | some t => exact t.eval_raises scope

/-! ## Steps -/

/-- If the machine stops at a fault then at one that a step may stop at. -/
def Progress.Raises (turn : Progress) : Prop := ∀ f t, turn = .fault f t → f.Raised

namespace Progress.Raises

variable {op : Nat} {s : State}

theorem next : Raises (.next op s) := fun _ _ h => nomatch h

theorem halt : Raises (.halt s) := fun _ _ h => nomatch h

theorem fault {f : Fault} (raised : f.Raised) : Raises (.fault f s) := by
  rintro _ _ ⟨⟩
  exact raised

end Progress.Raises

namespace Machine

open Progress

variable {p : Program} {b : Buffer}

theorem leaveLoop_raises (s : State) (least pass fail : Nat) : (s.leaveLoop least pass fail).Raises := by
  rw [State.leaveLoop]
  split
  · exact .fault trivial
  · exact .next

theorem endCapture_raises (s : State) (slot : Nat) (ofRule : Bool) (next : Nat) :
    (State.endCapture b s slot ofRule next).Raises := by
  rw [State.endCapture]
  split
  · exact .fault trivial
  · dsimp only
    split
    · exact .next
    · split
      · exact .next
      · exact .fault (Fault.ofRead_raised _)

theorem testTerminal_raises (s : State) (op id pass fail : Nat) :
    (State.testTerminal p b s op id pass fail).Raises := by
  rw [State.testTerminal]
  split
  · exact .fault trivial
  · split
    · exact .next
    · exact .next
    · exact .next
    · exact .halt
    · exact .fault (Fault.ofRead_raised _)

theorem call_raises (s : State) (ruleset pass fail : Nat) : (State.call p s ruleset pass fail).Raises := by
  rw [State.call]
  split
  · dsimp only
    split <;> exact .next
  · split
    · exact .fault trivial
    · exact .next

theorem giveOutput_raises (s : State) (rule next : Nat) : (State.giveOutput p b s rule next).Raises := by
  rw [State.giveOutput]
  split
  · exact .fault trivial
  · split
    · exact .fault trivial
    · split
      · exact .fault trivial
      · dsimp only
        split
        · exact .next
        · rename_i output
          exact .fault (State.ruleOutput_raises _ _ _ output)

theorem leave_raises (s : State) : (State.leave p s).Raises := by
  have leaving := State.leave_leaving p s
  generalize State.leave p s = turn at leaving
  cases leaving with
  | outside | nowhere => exact .fault trivial
  | result | earlier | again => exact .next

/-- A step stops at no fault but those of values, host functions, reads and the machine. -/
theorem step_raises (p : Program) (b : Buffer) (op : Nat) (s : State) : (step p b op s).Raises := by
  cases held : p.ops[op]? with
  | none =>
      simp only [step, held]
      exact .fault trivial
  | some o =>
      simp only [step, held]
      cases o with
      | commit next | captureFail next =>
          dsimp only
          split
          · exact .fault trivial
          · exact .next
      | rollback next =>
          dsimp only
          rw [State.goBack]
          split
          · exact .fault trivial
          · exact .next
      | lookExit next =>
          dsimp only
          rw [State.stopLooking]
          split
          · exact .fault trivial
          · dsimp only
            split
            · exact .fault trivial
            · exact .next
      | loopNext body least pass fail =>
          dsimp only
          rw [State.nextRound]
          split
          · exact .fault trivial
          · split
            · exact leaveLoop_raises _ least pass fail
            · exact .next
      | loopExit least pass fail => exact leaveLoop_raises s least pass fail
      | captureEnd slot ofRule next => exact endCapture_raises s slot ofRule next
      | terminal id pass fail => exact testTerminal_raises s op id pass fail
      | call ruleset pass fail => exact call_raises s ruleset pass fail
      | output rule next => exact giveOutput_raises s rule next
      | ret => exact leave_raises s
      | retFail =>
          dsimp only
          rw [State.leaveFailed]
          split
          · exact .fault trivial
          · dsimp only
            split <;> exact .next
      | accept | reject => exact .halt
      | _ => exact .next

end Machine

end PegFlow
