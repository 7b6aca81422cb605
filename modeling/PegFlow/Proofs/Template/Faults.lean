/-
# PegFlow.Proofs.Template.Faults -- what values fail with

Reaching into values, spreading them, pivoting them and handing them to host functions fails with
faults that are about values and host functions (`Fault.OfValue`), never with one of the text or of
the machine.
-/
import PegFlow.Template.Eval

namespace PegFlow

set_option autoImplicit false

/-- The result is a value or such a fault. -/
def FailsWith (P : Fault → Prop) {α : Type} (x : Except Fault α) : Prop := ∀ f, x = .error f → P f

namespace FailsWith

variable {P Q : Fault → Prop} {α β : Type}

theorem ok (a : α) : FailsWith P (.ok a : Except Fault α) := fun _ h => nomatch h

theorem error {f : Fault} (h : P f) : FailsWith P (.error f : Except Fault α) := by
  rintro _ ⟨⟩
  exact h

theorem imp {x : Except Fault α} (h : FailsWith P x) (weaker : ∀ f, P f → Q f) : FailsWith Q x :=
  fun f failed => weaker f (h f failed)

theorem bind {x : Except Fault α} {f : α → Except Fault β} (h : FailsWith P x)
    (next : ∀ a, FailsWith P (f a)) : FailsWith P (x >>= f) := by
  cases x with
  | error e => exact error (h e rfl)
  | ok a => exact next a

theorem mapM {f : α → Except Fault β} (h : ∀ a, FailsWith P (f a)) (xs : List α) :
    FailsWith P (xs.mapM f) := by
  induction xs with
  | nil => exact ok []
  | cons x xs ih =>
      rw [List.mapM_cons]
      exact (h x).bind fun _ => ih.bind fun _ => ok _

end FailsWith

/-- A fault of a value that a template meets, or of a host function that it calls. -/
def Fault.OfValue : Fault → Prop
  | .access _ => True
  | .invalidSpread _ => True
  | .invalidPivot _ => True
  | .callback .. => True
  | _ => False

theorem Value.parts_fails (v : Value) : FailsWith Fault.OfValue v.parts := by
  cases v with
  | null | array | string | object => exact .ok _
  | _ => exact .error trivial

theorem Value.asEntry_fails (v : Value) : FailsWith Fault.OfValue v.asEntry := by
  rw [Value.asEntry.eq_def]
  split
  · exact .ok _
  · exact .error trivial

theorem Value.memberParts_fails (v : Value) : FailsWith Fault.OfValue v.memberParts := by
  cases v with
  | array items => exact FailsWith.mapM Value.asEntry_fails items
  | null | object => exact .ok _
  | _ => exact .error trivial

theorem Value.pivot_fails (v : Value) : FailsWith Fault.OfValue v.pivot := by
  rw [Value.pivot.eq_def]
  split
  · split
    · exact .ok _
    · split
      · exact .ok _
      · exact .error trivial
  · split
    · exact .error trivial
    · exact .ok _
  · exact .error trivial

namespace Template

theorem reach_fails (access : List Access) (v : Value) : FailsWith Fault.OfValue (reach access v) := by
  rw [reach]
  split
  · exact .ok _
  · exact .error trivial

theorem invoke_fails (name : String) (f : Callback) (args : List Value) :
    FailsWith Fault.OfValue (invoke name f args) := by
  rw [invoke]
  split
  · exact .ok _
  · exact .error trivial

theorem parts_fails (s : Scope) (kind : TemplateKind) (access : List Access) (v : Value) :
    FailsWith Fault.OfValue (s.parts kind access v) := by
  have usual : FailsWith Fault.OfValue (do
      let v ← reach access v
      return if s.mayVanish kind && v.isNull then [] else [v]) :=
    (reach_fails access v).bind fun _ => .ok _
  cases kind with
  | spread inner => exact v.parts_fails
  | _ => exact usual

end Template

end PegFlow
