/-
# PegFlow.Proofs.Template.Checked -- checked templates cause no defect

The faults of a template tell what is wrong with the values it meets, or that matched text is
no longer held. The one defect there could be, a host function that is not there, is ruled
out by the check of templates (`Template.eval_sound`). Every template of an accepted grammar was checked
(`Grammar.annotate?_checked`), so its program causes none (`Program.ofGrammar_configured`).
-/
import PegFlow.Proofs.Grammar.Linked
import PegFlow.Proofs.Template.Faults
import PegFlow.Program

namespace PegFlow

set_option autoImplicit false
set_option linter.unusedSectionVars false

/-- A fault that accepted grammars can cause: no defect, and text is missing only where some
was let go. -/
def Fault.Possible (evicted : Prop) : Fault → Prop
  | .internal _ => False
  | .inputFreed .. => evicted
  | _ => True

/-- The result is a value or a fault that is possible. -/
def Sound (evicted : Prop) {α : Type} (x : Except Fault α) : Prop :=
  ∀ f, x = .error f → f.Possible evicted

namespace Sound

variable {evicted : Prop} {α β : Type}

theorem ok (a : α) : Sound evicted (.ok a : Except Fault α) := fun _ h => nomatch h

theorem error {f : Fault} (h : f.Possible evicted) : Sound evicted (.error f : Except Fault α) := by
  rintro _ ⟨⟩
  exact h

theorem bind {x : Except Fault α} {f : α → Except Fault β} (h : Sound evicted x)
    (next : ∀ a, Sound evicted (f a)) : Sound evicted (x >>= f) :=
  FailsWith.bind h next

end Sound

section

variable {evicted : Prop}

/-- What is wrong with values is no defect. -/
theorem FailsWith.sound {α : Type} {x : Except Fault α} (h : FailsWith Fault.OfValue x) : Sound evicted x :=
  h.imp fun f ofValue => by
    cases f with
    | access | invalidSpread | invalidPivot | callback => exact trivial
    | _ => exact ofValue.elim

namespace Template

/-! ## The check -/

variable {s : Scope} {c : TemplateContext} (text : Sound evicted s.matchedText)
variable (configured : ∀ name, c.callbacks.contains name = true →
  ∃ f, Keyed.get? name s.library.callbacks = some f)

include text configured

mutual

theorem eval_sound (part : Bool) (around : Option SourcePosition) : ∀ t : Template,
    t.check c part around = .ok () → Sound evicted (t.eval s)
  | ⟨kind, access, _⟩, checked =>
      (evalKind_sound part access _ kind checked).bind fun _ => (reach_fails _ _).sound

theorem evalKind_sound (part : Bool) (access : List Access) (pos : Option SourcePosition) :
    ∀ k : TemplateKind, checkKind c part access pos k = .ok () → Sound evicted (evalKind s k)
  | .literal _, _ => .ok _
  | .backRef 0 _, _ => text
  | .backRef (_ + 1) _, _ => .ok _
  | .constant _, _ => .ok _
  | .location .position, _ => .ok _
  | .location .length, _ => .ok _
  | .spread inner, checked => by
      rw [checkKind] at checked
      split at checked
      · cases checked
      · split at checked
        · cases checked
        · obtain ⟨_, -, checked⟩ := Except.bind_eq_ok checked
          exact eval_sound false pos inner checked
  | .object members, checked => (evalMembers_sound pos members [] checked).bind fun _ => .ok _
  | .array items, checked => (evalParts_sound pos items checked).bind fun _ => .ok _
  | .call name args, checked => by
      rw [checkKind] at checked
      split at checked
      · rename_i there
        obtain ⟨f, found⟩ := configured name there
        rw [evalKind, found]
        exact (evalParts_sound pos args checked).bind fun _ => (invoke_fails _ _ _).sound
      · cases checked
  | .pivot inner, checked => (eval_sound false pos inner checked).bind fun _ => (Value.pivot_fails _).sound

theorem evalParts_sound (pos : Option SourcePosition) : ∀ ts : List Template,
    checkItems c pos ts = .ok () → Sound evicted (evalParts s ts)
  | [], _ => .ok _
  | ⟨kind, access, own⟩ :: rest, checked => by
      obtain ⟨_, here, later⟩ := Except.bind_eq_ok checked
      exact (evalKind_sound true access (own.or pos) kind here).bind fun _ =>
        (parts_fails _ _ _ _).sound.bind fun _ => (evalParts_sound pos rest later).bind fun _ => .ok _

theorem evalMembers_sound (pos : Option SourcePosition) : ∀ (ms : List Member) (built : Keyed Value),
    checkMembers c pos ms = .ok () → Sound evicted (evalMembers s built ms)
  | [], _, _ => .ok _
  | .pair key ⟨kind, access, own⟩ :: rest, built, checked => by
      obtain ⟨_, here, later⟩ := Except.bind_eq_ok checked
      rw [evalMembers]
      refine (evalKind_sound false access (own.or pos) kind here).bind fun _ =>
        (reach_fails _ _).sound.bind fun v => ?_
      split
      · exact evalMembers_sound pos rest _ later
      · exact evalMembers_sound pos rest _ later
  | .merge value :: rest, built, checked => by
      obtain ⟨_, -, checked⟩ := Except.bind_eq_ok checked
      obtain ⟨_, here, later⟩ := Except.bind_eq_ok checked
      exact (eval_sound false pos value here).bind fun _ =>
        (Value.memberParts_fails _).sound.bind fun _ => evalMembers_sound pos rest _ later

end

end Template

end

/-! ## Programs of accepted grammars -/

theorem Except.forM_eq_ok_iff {ε α : Type} {f : α → Except ε Unit} {xs : List α} :
    xs.forM f = .ok () ↔ ∀ x ∈ xs, f x = .ok () := by
  induction xs with
  | nil => exact iff_of_true rfl (List.forall_mem_nil _)
  | cons x xs ih =>
      rw [List.forall_mem_cons, ← ih]
      show (f x >>= fun _ => xs.forM f) = _ ↔ _
      constructor
      · intro h
        obtain ⟨_, here, later⟩ := Except.bind_eq_ok h
        exact ⟨here, later⟩
      · rintro ⟨here, later⟩
        rw [here]
        exact later

/-- The check accepts templates exactly when it accepts each of them. -/
theorem Grammar.checkTemplates_eq_ok_iff {g : Grammar} {callbacks : List String} :
    g.checkTemplates callbacks = .ok () ↔ checkConstants callbacks [] g.constants = .ok () ∧
      ∀ s ∈ g.rulesets, ∀ r ∈ s.rules, checkRule callbacks (g.constants.map Constant.name) r = .ok () := by
  have rules :
      g.rulesets.forM (fun s => s.rules.forM (checkRule callbacks (g.constants.map Constant.name))) =
        .ok () ↔
      ∀ s ∈ g.rulesets, ∀ r ∈ s.rules, checkRule callbacks (g.constants.map Constant.name) r = .ok () := by
    simp only [Except.forM_eq_ok_iff]
  rw [← rules, checkTemplates]
  constructor
  · intro h
    obtain ⟨⟨⟩, constants, checked⟩ := Except.bind_eq_ok h
    exact ⟨constants, checked⟩
  · rintro ⟨constants, checked⟩
    rw [constants]
    exact checked

/-- The templates of an accepted grammar were checked, those of constants too. -/
theorem Grammar.annotate?_checked {g : Grammar} {callbacks : List String} {a : AnnotatedGrammar}
    (accepted : g.annotate? callbacks = .ok a) :
    checkConstants callbacks [] a.grammar.constants = .ok () ∧ ∀ s ∈ a.grammar.rulesets, ∀ r ∈ s.rules,
      checkRule callbacks (a.grammar.constants.map Constant.name) r = .ok () := by
  obtain ⟨-, -, -, -, -, -, -, -, -, -, checked⟩ := annotate?_stages accepted
  exact checkTemplates_eq_ok_iff.1 checked

/-- No template of a program causes a defect when the matched text can be read. -/
def Program.Configured (p : Program) : Prop :=
  ∀ r ∈ p.rules, ∀ t, r.template = some t → ∀ s : Scope, s.library = p.library →
    ∀ evicted, Sound evicted s.matchedText → Sound evicted (t.eval s)

/-- The host functions that the templates of an accepted grammar call are there. -/
theorem Program.ofGrammar_configured {g : Grammar} {library : Library} {a : AnnotatedGrammar}
    (accepted : g.annotate? (Keyed.keys library.callbacks) = .ok a) :
    (ofGrammar a library).Configured := by
  obtain ⟨-, checked⟩ := Grammar.annotate?_checked accepted
  intro output member t template s same evicted text
  obtain ⟨ruleset, hs, inside⟩ := List.mem_flatMap.1 (List.mem_toArray.1 member)
  obtain ⟨r, hr, rfl⟩ := List.mem_map.1 inside
  have here := checked ruleset hs r hr
  change r.output = some t at template
  rw [Grammar.checkRule, template] at here
  refine t.eval_sound text (fun name there => ?_) false r.pos here
  rw [same]
  exact Keyed.get?_of_mem_keys (List.contains_iff_mem.1 there)

end PegFlow
