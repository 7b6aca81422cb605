/-
# PegFlow.Proofs.Template.Window -- templates over a window of the input

A template reads the input only for the matched text. So in two scopes that differ in
their inputs alone it has the same value or the same fault, unless the matched text of
one of them is no longer held (`Template.eval_freedOr`).
-/
import PegFlow.Template.Eval

namespace PegFlow

set_option autoImplicit false

/-- The same result, or, where that can be, a fault because text is no longer held. -/
def FreedOr (evicted : Prop) {α : Type} (x y : Except Fault α) : Prop :=
  x = y ∨ (evicted ∧ ∃ offset retainedFrom, x = .error (.inputFreed offset retainedFrom))

namespace FreedOr

variable {evicted : Prop} {α β : Type}

theorem refl (x : Except Fault α) : FreedOr evicted x x := Or.inl rfl

theorem bind {x y : Except Fault α} {f g : α → Except Fault β} (h : FreedOr evicted x y)
    (next : ∀ a, FreedOr evicted (f a) (g a)) : FreedOr evicted (x >>= f) (y >>= g) := by
  rcases h with rfl | ⟨gone, offset, retainedFrom, rfl⟩
  · cases x with
    | error e => exact Or.inl rfl
    | ok a => exact next a
  · exact Or.inr ⟨gone, offset, retainedFrom, rfl⟩

end FreedOr

/-- The scope over another input. -/
def Scope.over (s : Scope) (b : Buffer) : Scope := { s with input := b }

namespace Template

variable {evicted : Prop} {s : Scope} {b : Buffer}
variable (text : FreedOr evicted (s.over b).matchedText s.matchedText)

set_option linter.unusedSectionVars false

include text

mutual

theorem eval_freedOr : ∀ t : Template, FreedOr evicted (t.eval (s.over b)) (t.eval s)
  | ⟨kind, _, _⟩ => (evalKind_freedOr kind).bind fun _ => .refl _

theorem evalKind_freedOr : ∀ k : TemplateKind, FreedOr evicted (evalKind (s.over b) k) (evalKind s k)
  | .literal _ => .refl _
  | .backRef 0 _ => text
  | .backRef (_ + 1) _ => .refl _
  | .constant _ => .refl _
  | .location .position => .refl _
  | .location .length => .refl _
  | .spread inner => eval_freedOr inner
  | .object members => (evalMembers_freedOr [] members).bind fun _ => .refl _
  | .array items => (evalParts_freedOr items).bind fun _ => .refl _
  | .call name args => by
      rw [evalKind, evalKind]
      show FreedOr evicted (match Keyed.get? name s.library.callbacks with | some f => _ | none => _) _
      cases Keyed.get? name s.library.callbacks with
      | none => exact .refl _
      | some f => exact (evalParts_freedOr args).bind fun _ => .refl _
  | .pivot inner => (eval_freedOr inner).bind fun _ => .refl _

theorem evalParts_freedOr : ∀ ts : List Template,
    FreedOr evicted (evalParts (s.over b) ts) (evalParts s ts)
  | [] => .refl _
  | ⟨kind, _, _⟩ :: rest =>
      (evalKind_freedOr kind).bind fun _ => (FreedOr.refl _).bind fun _ =>
        (evalParts_freedOr rest).bind fun _ => .refl _

theorem evalMembers_freedOr (built : Keyed Value) : ∀ ms : List Member,
    FreedOr evicted (evalMembers (s.over b) built ms) (evalMembers s built ms)
  | [] => .refl _
  | .pair key ⟨kind, access, _⟩ :: rest => by
      rw [evalMembers, evalMembers]
      refine (evalKind_freedOr kind).bind fun v => (FreedOr.refl _).bind fun v => ?_
      show FreedOr evicted (if s.mayVanish kind && v.isNull then _ else _) _
      split
      · exact evalMembers_freedOr built rest
      · exact evalMembers_freedOr (built.insert key v) rest
  | .merge value :: rest =>
      (eval_freedOr value).bind fun _ => (FreedOr.refl _).bind fun members =>
        evalMembers_freedOr (built.insertAll members) rest

end

end Template

end PegFlow
