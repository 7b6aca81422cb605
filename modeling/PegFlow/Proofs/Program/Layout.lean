/-
# PegFlow.Proofs.Program.Layout -- where the parts of a program are

`Program.ofGrammar` puts the rulesets one after the other between the ops that leave a
ruleset and those that end a parse. `Program.Stands` says for one ruleset that its ops
begin at its entry and that the outputs its rules are numbered by are those of its rules
(`ofGrammar_stands`).
-/
import PegFlow.Proofs.Machine.Ends
import PegFlow.Proofs.Meaning.Grammar

namespace PegFlow

set_option autoImplicit false

theorem Holds.toArray {α : Type} (before items after : List α) :
    Holds (before ++ items ++ after).toArray before.length items := by
  intro i x found
  have inside := (List.getElem?_eq_some_iff.1 found).1
  rw [List.getElem?_toArray, List.append_assoc, List.getElem?_append_right (by omega),
    Nat.add_sub_cancel_left, List.getElem?_append_left inside, found]

namespace Program

/-- What a program keeps of a rule. -/
def outputOf (r : Rule) : RuleOutput := ⟨r.captures, r.output⟩

/-- The program begins with the ops of another one, and is like it in all else. -/
structure Extends (q p : Program) : Prop where
  ops : ∀ (op : Nat) (o : Op), p.ops[op]? = some o → q.ops[op]? = some o
  entries : q.entries = p.entries
  rules : q.rules = p.rules
  terminals : q.terminals = p.terminals
  library : q.library = p.library

theorem Extends.refl (p : Program) : p.Extends p := ⟨fun _ _ held => held, rfl, rfl, rfl, rfl⟩

theorem Extends.holds {q p : Program} (h : q.Extends p) {base : Nat} {ops : List Op}
    (held : Holds p.ops base ops) : Holds q.ops base ops :=
  fun i o found => h.ops _ o (held i o found)

/-- The rules of a ruleset begin at `entry`, and their outputs are where their ops look
for them. -/
def Stands (p : Program) (rules : List Rule) (entry : Nat) : Prop :=
  ∃ base index, Holds p.ops base (rulesFragment index rules base retAt retFailAt).ops ∧
    entry = (rulesFragment index rules base retAt retFailAt).entry ∧
    Holds p.rules index (rules.map outputOf)

theorem rulesetOps_stands {p : Program} {rulesets : List Ruleset} {base index : Nat}
    (ops : Holds p.ops base (rulesetOps base index rulesets).1)
    (rules : Holds p.rules index (rulesets.flatMap fun s => s.rules.map outputOf))
    {i : Nat} {s : Ruleset} (found : rulesets[i]? = some s) :
    ∃ entry, (rulesetOps base index rulesets).2[i]? = some entry ∧ p.Stands s.rules entry := by
  induction rulesets generalizing base index i with
  | nil => cases found
  | cons first rest ih =>
      rw [List.flatMap_cons] at rules
      cases i with
      | zero =>
          cases found
          exact ⟨_, rfl, base, index, ops.left, rfl, rules.left⟩
      | succ i =>
          have later := rules.right
          rw [List.length_map] at later
          exact ih ops.right later found

theorem length_rulesetOps (rulesets : List Ruleset) (base index : Nat) :
    (rulesetOps base index rulesets).2.length = rulesets.length := by
  induction rulesets generalizing base index with
  | nil => rfl
  | cons s rest ih => exact congrArg (· + 1) (ih _ _)

variable (g : AnnotatedGrammar) (library : Library)

theorem ofGrammar_ret : (ofGrammar g library).ops[retAt]? = some .ret := rfl

theorem ofGrammar_retFail : (ofGrammar g library).ops[retFailAt]? = some .retFail := rfl

theorem size_entries : (ofGrammar g library).entries.size = g.grammar.rulesets.length := by
  rw [← length_rulesetOps g.grammar.rulesets 2 0]
  rfl

/-- Every ruleset has an entry, at which its rules begin. -/
theorem ofGrammar_stands {ruleset : Nat} (lt : ruleset < g.grammar.rulesets.length) :
    ∃ entry, (ofGrammar g library).entries[ruleset]? = some entry ∧
      (ofGrammar g library).Stands (g.grammar.rulesAt ruleset) entry := by
  have ops : Holds (ofGrammar g library).ops 2 (rulesetOps 2 0 g.grammar.rulesets).1 :=
    .toArray [Op.ret, Op.retFail] _ _
  have rules : Holds (ofGrammar g library).rules 0
      (g.grammar.rulesets.flatMap fun s => s.rules.map outputOf) := by
    intro i x found
    rw [Nat.zero_add]
    exact (List.getElem?_toArray ..).trans found
  have found : g.grammar.rulesets[ruleset]? = some g.grammar.rulesets[ruleset] :=
    List.getElem?_eq_getElem lt
  obtain ⟨entry, here, stands⟩ := rulesetOps_stands ops rules found
  refine ⟨entry, (List.getElem?_toArray ..).trans here, ?_⟩
  rw [Grammar.rulesAt, found]
  exact stands

/-- The last ops: accept, reject, and the call of the whole grammar. -/
theorem ofGrammar_last : ∃ acceptAt,
    (ofGrammar g library).root = acceptAt + 2 ∧
    (ofGrammar g library).ops[acceptAt]? = some .accept ∧
    (ofGrammar g library).ops[acceptAt + 1]? = some .reject ∧
    (ofGrammar g library).ops[acceptAt + 2]? = some (.call g.entry acceptAt (acceptAt + 1)) := by
  refine ⟨2 + (rulesetOps 2 0 g.grammar.rulesets).1.length, rfl, ?_⟩
  have last : Holds (ofGrammar g library).ops (2 + (rulesetOps 2 0 g.grammar.rulesets).1.length)
      [.accept, .reject, .call g.entry (2 + (rulesetOps 2 0 g.grammar.rulesets).1.length)
        (2 + (rulesetOps 2 0 g.grammar.rulesets).1.length + 1)] := by
    have := Holds.toArray ([.ret, .retFail] ++ (rulesetOps 2 0 g.grammar.rulesets).1)
      [.accept, .reject, .call g.entry (2 + (rulesetOps 2 0 g.grammar.rulesets).1.length)
        (2 + (rulesetOps 2 0 g.grammar.rulesets).1.length + 1)] []
    rw [List.append_nil, List.length_append] at this
    exact this
  exact ⟨last.head, last.tail.head, last.tail.tail.head⟩

end Program

end PegFlow
