/-
# PegFlow.Proofs.Template.Grounded -- templates that find all that they read

A template is grounded in a scope when every node finds there what it refers to, a slot, a
constant or a host function, and spreads stand only where parts do (`Template.Grounded`). The
check of templates grants this (`Template.grounded_of_check`).

So the constants of an accepted grammar are grounded where those before them have values
(`Constant.grounded_of_checkConstants`), and the templates of its rules where there are as many
slots as the rule has (`Program.ofGrammar_grounded`).

The value of a grounded template does not hang on what is given for things that are missing: it
is the same in every scope that has more slots and constants (`Template.Grounded.complete`).
-/
import PegFlow.Grammar.Constants
import PegFlow.Grammar.TemplateCheck
import PegFlow.Proofs.Template.Checked
import PegFlow.Template.Eval

namespace PegFlow

set_option autoImplicit false
set_option linter.unusedSectionVars false

/-- The node is a spread. -/
def Template.IsSpread (t : Template) : Prop := ∃ inner, t.kind = .spread inner

/-- What the node itself refers to is in the scope. -/
def TemplateKind.Finds (s : Scope) : TemplateKind → Prop
  | .backRef index _ => index ≤ s.slots.length
  | .constant name => ∃ v, s.library.constants.get? name = some v
  | .call name _ => ∃ f, s.library.callbacks.get? name = some f
  | _ => True

/-- Nodes inside are no spreads, but for the items of an array and the arguments of a call. -/
def TemplateKind.Places : TemplateKind → Prop
  | .spread inner => ¬ inner.IsSpread
  | .pivot inner => ¬ inner.IsSpread
  | .object members => ∀ m ∈ members, match m with
    | .pair _ value => ¬ value.IsSpread
    | .merge value => ¬ value.IsSpread
  | _ => True

/-- Every node of the template finds what it refers to, and spreads stand only among the items
of an array and the arguments of a call. -/
structure Template.Grounded (s : Scope) (t : Template) : Prop where
  whole : ¬ t.IsSpread
  nodes : ∀ node ∈ t.walk, node.kind.Finds s ∧ node.kind.Places

/-- What the context of a check promises is in the scope. -/
structure Scope.Serves (s : Scope) (c : TemplateContext) : Prop where
  slots : ∀ arity, c.owner = .rule arity → arity ≤ s.slots.length
  constants : ∀ name, c.constants.contains name = true → ∃ v, s.library.constants.get? name = some v
  callbacks : ∀ name, c.callbacks.contains name = true → ∃ f, s.library.callbacks.get? name = some f

namespace Template

theorem index_le_of_checkSlot {owner : TemplateOwner} {index : Nat} {pos : Option SourcePosition}
    (checked : checkSlot owner index pos = .ok ()) : ∃ arity, owner = .rule arity ∧ index ≤ arity := by
  rw [checkSlot.eq_def] at checked
  split at checked
  · rename_i arity
    split at checked
    · cases checked
    · exact ⟨arity, rfl, by omega⟩
  · cases checked

section

variable {s : Scope} {c : TemplateContext} (serves : s.Serves c)

/-- A node that was checked where no parts are is no spread. -/
theorem not_isSpread_of_check {around : Option SourcePosition} {t : Template}
    (checked : t.check c false around = .ok ()) : ¬ t.IsSpread := by
  obtain ⟨kind, access, pos⟩ := t
  rintro ⟨inner, rfl⟩
  rw [check, checkKind] at checked
  cases checked

include serves

mutual

theorem walk_of_check (part : Bool) (around : Option SourcePosition) : ∀ t : Template,
    t.check c part around = .ok () → ∀ node ∈ t.walk, node.kind.Finds s ∧ node.kind.Places
  | ⟨kind, access, pos⟩, checked => by
      obtain ⟨here, inside⟩ := walkKind_of_check part access (pos.or around) kind checked
      exact List.forall_mem_cons.2 ⟨here, inside⟩

theorem walkKind_of_check (part : Bool) (access : List Access) (pos : Option SourcePosition) :
    ∀ k : TemplateKind, checkKind c part access pos k = .ok () →
      (k.Finds s ∧ k.Places) ∧ ∀ node ∈ walkKind k, node.kind.Finds s ∧ node.kind.Places
  | .literal _, _ => ⟨⟨trivial, trivial⟩, List.forall_mem_nil _⟩
  | .backRef index _, checked => by
      obtain ⟨arity, owner, le⟩ := index_le_of_checkSlot checked
      exact ⟨⟨Nat.le_trans le (serves.slots arity owner), trivial⟩, List.forall_mem_nil _⟩
  | .constant name, checked => by
      rw [checkKind] at checked
      split at checked
      · rename_i known
        exact ⟨⟨serves.constants name known, trivial⟩, List.forall_mem_nil _⟩
      · cases checked
  | .location _, _ => ⟨⟨trivial, trivial⟩, List.forall_mem_nil _⟩
  | .spread inner, checked => by
      rw [checkKind] at checked
      split at checked
      · cases checked
      · split at checked
        · cases checked
        · obtain ⟨_, -, checked⟩ := Except.bind_eq_ok checked
          exact ⟨⟨trivial, not_isSpread_of_check checked⟩, walk_of_check false pos inner checked⟩
  | .object members, checked => by
      obtain ⟨places, inside⟩ := walkMembers_of_check pos members checked
      exact ⟨⟨trivial, places⟩, inside⟩
  | .array items, checked => ⟨⟨trivial, trivial⟩, walkItems_of_check pos items checked⟩
  | .call name args, checked => by
      rw [checkKind] at checked
      split at checked
      · rename_i known
        exact ⟨⟨serves.callbacks name known, trivial⟩, walkItems_of_check pos args checked⟩
      · cases checked
  | .pivot inner, checked =>
      ⟨⟨trivial, not_isSpread_of_check checked⟩, walk_of_check false pos inner checked⟩

theorem walkItems_of_check (pos : Option SourcePosition) : ∀ ts : List Template,
    checkItems c pos ts = .ok () → ∀ node ∈ walkItems ts, node.kind.Finds s ∧ node.kind.Places
  | [], _ => List.forall_mem_nil _
  | t :: rest, checked => by
      obtain ⟨_, here, later⟩ := Except.bind_eq_ok checked
      exact List.forall_mem_append.2 ⟨walk_of_check true pos t here, walkItems_of_check pos rest later⟩

theorem walkMembers_of_check (pos : Option SourcePosition) : ∀ ms : List Member,
    checkMembers c pos ms = .ok () → (TemplateKind.object ms).Places ∧
      ∀ node ∈ walkMembers ms, node.kind.Finds s ∧ node.kind.Places
  | [], _ => ⟨List.forall_mem_nil _, List.forall_mem_nil _⟩
  | .pair _ value :: rest, checked => by
      obtain ⟨_, here, later⟩ := Except.bind_eq_ok checked
      obtain ⟨places, inside⟩ := walkMembers_of_check pos rest later
      exact ⟨List.forall_mem_cons.2 ⟨not_isSpread_of_check here, places⟩,
        List.forall_mem_append.2 ⟨walk_of_check false pos value here, inside⟩⟩
  | .merge value :: rest, checked => by
      obtain ⟨_, -, checked⟩ := Except.bind_eq_ok checked
      obtain ⟨_, here, later⟩ := Except.bind_eq_ok checked
      obtain ⟨places, inside⟩ := walkMembers_of_check pos rest later
      exact ⟨List.forall_mem_cons.2 ⟨not_isSpread_of_check here, places⟩,
        List.forall_mem_append.2 ⟨walk_of_check false pos value here, inside⟩⟩

end

/-- A template that was checked is grounded in every scope that has what it was checked
against. -/
theorem grounded_of_check {around : Option SourcePosition} {t : Template}
    (checked : t.check c false around = .ok ()) : t.Grounded s :=
  ⟨not_isSpread_of_check checked, walk_of_check serves false around t checked⟩

end

end Template

/-! ## Nothing that is missing counts -/

/-- The other scope has all that is in this one, and perhaps more. -/
structure Scope.Extends (s s' : Scope) : Prop where
  slots : ∀ i < s.slots.length, s'.slots[i]? = s.slots[i]? ∧ s'.layout[i]? = s.layout[i]?
  constants : ∀ name v, s.library.constants.get? name = some v → s'.library.constants.get? name = some v
  callbacks : s'.library.callbacks = s.library.callbacks
  start : s'.start = s.start
  stop : s'.stop = s.stop
  input : s'.input = s.input

namespace Scope.Extends

variable {s s' : Scope} (extends_ : s.Extends s')

include extends_

theorem matchedText_eq : s'.matchedText = s.matchedText := by
  rw [Scope.matchedText, Scope.matchedText, extends_.start, extends_.stop, extends_.input]

theorem isRepeated_eq {i : Nat} (lt : i < s.slots.length) : s'.isRepeated i = s.isRepeated i := by
  rw [Scope.isRepeated, Scope.isRepeated, (extends_.slots i lt).2]

theorem slot_eq {i : Nat} (lt : i < s.slots.length) (collapse : Bool) :
    s'.slot i collapse = s.slot i collapse := by
  rw [Scope.slot, Scope.slot, extends_.isRepeated_eq lt, (extends_.slots i lt).1]

theorem mayVanish_eq {k : TemplateKind} (finds : k.Finds s) : s'.mayVanish k = s.mayVanish k := by
  rw [Scope.mayVanish.eq_def, Scope.mayVanish.eq_def]
  split
  · rw [extends_.isRepeated_eq finds]
  · rfl

theorem parts_eq {k : TemplateKind} (finds : k.Finds s) (access : List Access) (v : Value) :
    s'.parts k access v = s.parts k access v := by
  rw [Scope.parts.eq_def, Scope.parts.eq_def]
  split
  · rfl
  · rw [extends_.mayVanish_eq finds]

end Scope.Extends

namespace Template

section

variable {s s' : Scope} (extends_ : s.Extends s')

include extends_

mutual

theorem eval_extends : ∀ t : Template, (∀ node ∈ t.walk, node.kind.Finds s) → t.eval s' = t.eval s
  | ⟨kind, access, _⟩, finds => by
      obtain ⟨here, inside⟩ := List.forall_mem_cons.1 finds
      rw [eval, eval, evalKind_extends kind here inside]

theorem evalKind_extends : ∀ k : TemplateKind, k.Finds s → (∀ node ∈ walkKind k, node.kind.Finds s) →
    evalKind s' k = evalKind s k
  | .literal _, _, _ => rfl
  | .backRef 0 _, _, _ => extends_.matchedText_eq
  | .backRef (i + 1) collapse, le, _ => congrArg Except.ok (extends_.slot_eq le collapse)
  | .constant name, ⟨v, found⟩, _ => by
      rw [evalKind, evalKind, found, extends_.constants name v found]
  | .location .position, _, _ => by rw [evalKind, evalKind, extends_.start]
  | .location .length, _, _ => by rw [evalKind, evalKind, extends_.start, extends_.stop]
  | .spread inner, _, inside => eval_extends inner inside
  | .object members, _, inside => by rw [evalKind, evalKind, evalMembers_extends members [] inside]
  | .array items, _, inside => by rw [evalKind, evalKind, evalParts_extends items inside]
  | .call name args, _, inside => by
      rw [evalKind, evalKind, extends_.callbacks, evalParts_extends args inside]
  | .pivot inner, _, inside => by rw [evalKind, evalKind, eval_extends inner inside]

theorem evalParts_extends : ∀ ts : List Template, (∀ node ∈ walkItems ts, node.kind.Finds s) →
    evalParts s' ts = evalParts s ts
  | [], _ => rfl
  | ⟨kind, access, _⟩ :: rest, finds => by
      obtain ⟨first, later⟩ := List.forall_mem_append.1 finds
      obtain ⟨here, inside⟩ := List.forall_mem_cons.1 first
      rw [evalParts, evalParts, evalKind_extends kind here inside, evalParts_extends rest later]
      simp only [extends_.parts_eq here]

theorem evalMembers_extends : ∀ (ms : List Member) (built : Keyed Value),
    (∀ node ∈ walkMembers ms, node.kind.Finds s) → evalMembers s' built ms = evalMembers s built ms
  | [], _, _ => rfl
  | .pair key ⟨kind, access, _⟩ :: rest, built, finds => by
      obtain ⟨first, later⟩ := List.forall_mem_append.1 finds
      obtain ⟨here, inside⟩ := List.forall_mem_cons.1 first
      rw [evalMembers, evalMembers, evalKind_extends kind here inside]
      simp only [extends_.mayVanish_eq here, fun built => evalMembers_extends rest built later]
  | .merge value :: rest, built, finds => by
      obtain ⟨first, later⟩ := List.forall_mem_append.1 finds
      rw [evalMembers, evalMembers, eval_extends value first]
      simp only [fun built => evalMembers_extends rest built later]

end

end

/-- Nothing that is missing in the scope counts: the value is the same in every scope that has
more in it. -/
def Complete (s : Scope) (t : Template) : Prop := ∀ s' : Scope, s.Extends s' → t.eval s' = t.eval s

theorem Grounded.complete {s : Scope} {t : Template} (grounded : t.Grounded s) : t.Complete s := by
  intro s' extends_
  exact eval_extends extends_ t fun node member => (grounded.nodes node member).1

end Template

/-! ## Constants -/

/-- Each constant was checked against those before it. -/
theorem Grammar.checkConstants_split {callbacks defined : List String} {before after : List Constant}
    {c : Constant} (checked : checkConstants callbacks defined (before ++ c :: after) = .ok ()) :
    ∃ known, (∀ name ∈ known, name ∈ before.map Constant.name ∨ name ∈ defined) ∧
      c.value.check ⟨.constant c.name, known, callbacks⟩ false c.pos = .ok () := by
  induction before generalizing defined with
  | nil =>
      rw [List.nil_append, checkConstants] at checked
      split at checked
      · cases checked
      · obtain ⟨_, here, -⟩ := Except.bind_eq_ok checked
        exact ⟨defined, fun _ member => Or.inr member, here⟩
  | cons first rest ih =>
      rw [List.cons_append, checkConstants] at checked
      split at checked
      · cases checked
      · obtain ⟨_, -, later⟩ := Except.bind_eq_ok checked
        obtain ⟨known, named, here⟩ := ih later
        refine ⟨known, fun name member => ?_, here⟩
        rcases named name member with inside | outside
        · exact Or.inl (List.mem_cons_of_mem _ inside)
        · rw [List.map_cons, List.mem_cons, or_assoc]
          rcases List.mem_cons.1 outside with same | older
          · exact Or.inl same
          · exact Or.inr (Or.inr older)

namespace Constant

variable {callbacks : Callbacks} {known values : Keyed Value}

/-- Constants are evaluated one after the other. -/
theorem evaluate?_append (before after : List Constant) (known : Keyed Value) :
    evaluate? callbacks known (before ++ after) =
      evaluate? callbacks known before >>= fun known' => evaluate? callbacks known' after := by
  induction before generalizing known with
  | nil => rfl
  | cons c rest ih =>
      rw [List.cons_append, evaluate?, evaluate?]
      split
      · exact ih _
      · rfl

/-- The constants that were evaluated have values, and what had one before has one. -/
theorem get?_of_evaluate? {constants : List Constant}
    (evaluated : evaluate? callbacks known constants = .ok values) {name : String}
    (named : name ∈ constants.map Constant.name ∨ ∃ v, known.get? name = some v) :
    ∃ v, values.get? name = some v := by
  induction constants generalizing known with
  | nil =>
      cases evaluated
      exact named.resolve_left List.not_mem_nil
  | cons c rest ih =>
      rw [evaluate?] at evaluated
      split at evaluated
      · rename_i v _
        refine ih evaluated ?_
        rw [Keyed.get?_insert]
        by_cases same : name = c.name
        · exact Or.inr ⟨v, if_pos same⟩
        · rw [if_neg same]
          exact named.imp_left fun member => (List.mem_cons.1 member).resolve_left same
      · cases evaluated

/-- A checked constant is evaluated where the constants before it have values, and finds there all
that it refers to. -/
theorem grounded_of_checkConstants {constants before after : List Constant} {c : Constant}
    (checked : Grammar.checkConstants (Keyed.keys callbacks) [] constants = .ok ())
    (evaluated : evaluate? callbacks [] constants = .ok values) (split : constants = before ++ c :: after) :
    ∃ known, evaluate? callbacks [] before = .ok known ∧
      c.value.Grounded (Scope.ofLibrary { constants := known, callbacks }) := by
  subst split
  obtain ⟨names, named, check⟩ := Grammar.checkConstants_split checked
  rw [evaluate?_append] at evaluated
  obtain ⟨known, first, -⟩ := Except.bind_eq_ok evaluated
  have serves : (Scope.ofLibrary { constants := known, callbacks }).Serves
      ⟨.constant c.name, names, Keyed.keys callbacks⟩ :=
    { slots := fun _ none => nomatch none
      constants := fun name there => get?_of_evaluate? first
        ((named name (List.contains_iff_mem.1 there)).imp_right fun none => nomatch none)
      callbacks := fun name there => Keyed.get?_of_mem_keys (List.contains_iff_mem.1 there) }
  exact ⟨known, first, Template.grounded_of_check serves check⟩

end Constant

/-! ## Rules -/

/-- The template of each rule is grounded in every scope that has the slots of the rule. -/
def Program.Grounded (p : Program) : Prop :=
  ∀ r ∈ p.rules, ∀ t, r.template = some t → ∀ s : Scope, s.library = p.library →
    r.layout.length ≤ s.slots.length → t.Grounded s

theorem Program.ofGrammar_grounded {g : Grammar} {library : Library} {a : AnnotatedGrammar}
    (accepted : g.annotate? (Keyed.keys library.callbacks) = .ok a)
    (evaluated : Constant.evaluate? library.callbacks [] a.grammar.constants = .ok library.constants) :
    (ofGrammar a library).Grounded := by
  obtain ⟨-, checked⟩ := Grammar.annotate?_checked accepted
  intro output member t template s same slots
  obtain ⟨ruleset, hs, inside⟩ := List.mem_flatMap.1 (List.mem_toArray.1 member)
  obtain ⟨r, hr, rfl⟩ := List.mem_map.1 inside
  have check := checked ruleset hs r hr
  change r.output = some t at template
  rw [Grammar.checkRule, template] at check
  have serves : s.Serves ⟨.rule r.captures.length, a.grammar.constants.map Constant.name,
      Keyed.keys library.callbacks⟩ := by
    refine ⟨?_, fun name there => ?_, fun name there => ?_⟩
    · rintro _ ⟨⟩
      exact slots
    · rw [same]
      exact Constant.get?_of_evaluate? evaluated (Or.inl (List.contains_iff_mem.1 there))
    · rw [same]
      exact Keyed.get?_of_mem_keys (List.contains_iff_mem.1 there)
  exact Template.grounded_of_check serves check

end PegFlow
