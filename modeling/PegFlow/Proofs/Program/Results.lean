/-
# PegFlow.Proofs.Program.Results -- ops that take the last result

The end of a capture of a plain reference, the op that leaves a ruleset that matched, and the
end of the program take the output of the rule that matched last. In the program of a grammar
nothing turns to one of them without a result: an output is followed by the op that leaves, and
only the way on from a call that matched leads to the others (`Program.ofGrammar_feeds`).
-/
import PegFlow.Proofs.Machine.Tree
import PegFlow.Proofs.Program.Layout
import PegFlow.Proofs.Program.Relocate

namespace PegFlow

set_option autoImplicit false
set_option linter.unusedSectionVars false

/-- The op takes the output of the rule that matched last. -/
def Op.Takes : Op → Prop
  | .captureEnd _ ofRule _ => ofRule = true
  | .ret => True
  | .accept => True
  | _ => False

/-- The places that an op turns to when nothing has matched in it that has an output. -/
def Op.without : Op → List Nat
  | .call _ _ fail => [fail]
  | .output .. => []
  | o => o.targets

namespace Program

/-- The op at the place takes the output of the rule that matched last. -/
def Takes (p : Program) (t : Nat) : Prop := ∃ o, p.ops[t]? = some o ∧ o.Takes

theorem not_takes {p : Program} {t : Nat} {o : Op} (held : p.ops[t]? = some o) (no : ¬ o.Takes) :
    ¬ p.Takes t := by
  rintro ⟨o', held', takes⟩
  cases held.symm.trans held'
  exact no takes

/-- What turns to a place without a result finds no op there that takes it. -/
def Lacks (p : Program) (o : Op) : Prop := ∀ t ∈ o.without, ¬ p.Takes t

/-- Nothing turns to an op that takes a result without one, nor does a ruleset or the program
begin there. -/
structure Feeds (p : Program) : Prop where
  turns : ∀ (op : Nat) (o : Op), p.ops[op]? = some o → p.Lacks o
  entries : ∀ ruleset entry : Nat, p.entries[ruleset]? = some entry → ¬ p.Takes entry
  root : ¬ p.Takes p.root

end Program

/-- When the places to go on at take no result, the fragment begins with no op that does, and
none of its ops turns to one without a result. -/
def Fragment.Feeds (p : Program) (f : Fragment) : Prop :=
  ∀ base pass fail, Holds p.ops base (f base pass fail).ops → ¬ p.Takes pass → ¬ p.Takes fail →
    ¬ p.Takes (f base pass fail).entry ∧ ∀ o ∈ (f base pass fail).ops, p.Lacks o

namespace Fragment.Feeds

open Program

variable {p : Program} {f g : Fragment}

theorem pass : Fragment.pass.Feeds p := fun _ _ _ _ passed _ => ⟨passed, List.forall_mem_nil _⟩

theorem fail : Fragment.fail.Feeds p := fun _ _ _ _ _ failed => ⟨failed, List.forall_mem_nil _⟩

theorem terminal (id : Nat) : (Fragment.terminal id).Feeds p := by
  intro base pass fail held passed failed
  refine ⟨not_takes held.head not_false, List.forall_mem_singleton.2 ?_⟩
  simpa [Lacks, Op.without, Op.targets] using ⟨passed, failed⟩

theorem call (ruleset : Nat) : (Fragment.call ruleset).Feeds p := by
  intro base pass fail held _ failed
  refine ⟨not_takes held.head not_false, List.forall_mem_singleton.2 ?_⟩
  simpa [Lacks, Op.without] using failed

theorem orElse (one : f.Feeds p) (other : g.Feeds p) : (f.orElse g).Feeds p := by
  intro base pass fail held passed failed
  obtain ⟨entry, second⟩ := other base pass fail held.left passed failed
  obtain ⟨entry', first⟩ := one _ _ _ held.right passed entry
  exact ⟨entry', List.forall_mem_append.2 ⟨second, first⟩⟩

theorem andThen (one : f.Feeds p) (other : g.Feeds p) : (f.andThen g).Feeds p := by
  intro base pass fail held passed failed
  obtain ⟨entry, second⟩ := other base pass fail held.left passed failed
  obtain ⟨entry', first⟩ := one _ _ _ held.right entry failed
  exact ⟨entry', List.forall_mem_append.2 ⟨second, first⟩⟩

/-- A body between two ops before it, which it goes on at, and one behind it that turns to
it. -/
theorem around {one other first : Op} {base : Nat} {code : Code}
    (held : Holds p.ops base (one :: other :: code.ops ++ [first]))
    (body : ¬ p.Takes code.entry ∧ ∀ o ∈ code.ops, p.Lacks o) (before : p.Lacks one)
    (next : p.Lacks other) (takes : ¬ first.Takes) (behind : first.without = [code.entry]) :
    ¬ p.Takes (base + 2 + code.ops.length) ∧ ∀ o ∈ one :: other :: code.ops ++ [first], p.Lacks o := by
  obtain ⟨-, -, -, last⟩ := Holds.around held
  refine ⟨not_takes last takes, ?_⟩
  intro o member
  simp only [List.cons_append, List.mem_cons, List.mem_append, List.not_mem_nil, or_false] at member
  rcases member with rfl | rfl | inside | rfl
  · exact before
  · exact next
  · exact body.2 o inside
  · intro t named
    rw [behind] at named
    exact List.mem_singleton.1 named ▸ body.1

theorem lacks_one {o : Op} {t : Nat} (turns : o.without = [t]) (free : ¬ p.Takes t) : p.Lacks o := by
  intro t' named
  rw [turns] at named
  exact List.mem_singleton.1 named ▸ free

theorem atomically (body : f.Feeds p) : f.atomically.Feeds p := by
  intro base pass fail held passed failed
  obtain ⟨one, other, inside, -⟩ := Holds.around held
  have code := body _ _ _ inside (not_takes other not_false) (not_takes one not_false)
  exact around held code (lacks_one rfl failed) (lacks_one rfl passed) not_false rfl

theorem lookahead (body : f.Feeds p) : f.lookahead.Feeds p := by
  intro base pass fail held passed failed
  obtain ⟨one, other, inside, -⟩ := Holds.around held
  have code := body _ _ _ inside (not_takes one not_false) (not_takes other not_false)
  exact around held code (lacks_one rfl passed) (lacks_one rfl failed) not_false rfl

theorem negativeLookahead (body : f.Feeds p) : f.negativeLookahead.Feeds p := by
  intro base pass fail held passed failed
  obtain ⟨one, other, inside, -⟩ := Holds.around held
  have code := body _ _ _ inside (not_takes other not_false) (not_takes one not_false)
  exact around held code (lacks_one rfl passed) (lacks_one rfl failed) not_false rfl

theorem loop (least : Nat) (body : f.Feeds p) : (f.loop least).Feeds p := by
  intro base pass fail held passed failed
  obtain ⟨one, other, inside, -⟩ := Holds.around held
  have code := body _ _ _ inside (not_takes other not_false) (not_takes one not_false)
  refine around held code ?_ ?_ not_false rfl
  · simpa [Lacks, Op.without, Op.targets] using ⟨passed, failed⟩
  · simpa [Lacks, Op.without, Op.targets] using ⟨code.1, passed, failed⟩

theorem optional (slots : List Nat) (body : f.Feeds p) : (f.optional slots).Feeds p := by
  intro base pass fail held passed failed
  cases slots with
  | nil => exact body base pass pass held passed passed
  | cons slot rest =>
      obtain ⟨entry, inside⟩ := body _ _ _ held.tail passed (not_takes held.head not_false)
      exact ⟨entry, List.forall_mem_cons.2 ⟨lacks_one rfl passed, inside⟩⟩

/-- A capture of the matched text. -/
theorem captureText (slot : Nat) (body : f.Feeds p) : (f.capture slot false).Feeds p := by
  intro base pass fail held passed failed
  obtain ⟨one, other, inside, -⟩ := Holds.around held
  have code := body _ _ _ inside (not_takes one Bool.false_ne_true) (not_takes other not_false)
  exact around held code (lacks_one rfl passed) (lacks_one rfl failed) not_false rfl

/-- A capture of the output of a ruleset: its end is where the call goes on when the ruleset has
matched. -/
theorem captureOutput (slot ruleset : Nat) : ((Fragment.call ruleset).capture slot true).Feeds p := by
  intro base pass fail held passed failed
  obtain ⟨-, other, inside, -⟩ := Holds.around held
  have code : ¬ p.Takes (base + 2) ∧ ∀ o ∈ [Op.call ruleset base (base + 1)], p.Lacks o :=
    ⟨not_takes inside.head not_false, List.forall_mem_singleton.2 (lacks_one rfl (not_takes other not_false))⟩
  exact around held code (lacks_one rfl passed) (lacks_one rfl failed) not_false rfl

theorem modified (required repeated ahead notAhead : Bool) (slots : List Nat) (body : f.Feeds p) :
    (f.modified required repeated ahead notAhead slots).Feeds p := by
  have counted : (if repeated then f.loop (if required then 1 else 0)
      else if required then f else f.optional slots).Feeds p := by
    cases repeated with
    | true => exact body.loop _
    | false =>
        cases required with
        | true => exact body
        | false => exact body.optional slots
  cases ahead with
  | true => exact counted.lookahead
  | false =>
      cases notAhead with
      | true => exact counted.negativeLookahead
      | false => exact counted

end Fragment.Feeds

section

variable {p : Program} {terminals : List Terminal} {n : Nat}

mutual

theorem Matcher.fragment_feeds : ∀ m : Matcher, m.Every (Matcher.Linked terminals n) → m.fragment.Feeds p
  | .literal _ _, ⟨id, rfl, _⟩ => by
      rw [Matcher.fragment]
      exact .terminal id
  | .charClass _ _, ⟨id, _, rfl, _, _⟩ => by
      rw [Matcher.fragment]
      exact .terminal id
  | .any _, ⟨id, rfl, _⟩ => by
      rw [Matcher.fragment]
      exact .terminal id
  | .ref _ _, ⟨ruleset, rfl, _⟩ => by
      rw [Matcher.fragment]
      exact .call ruleset
  | .group patterns, linked => by
      rw [Matcher.fragment]
      exact Pattern.fragment_feeds patterns linked
  | .capture patterns slot, linked => by
      rw [Matcher.fragment]
      rcases Pattern.plain_cases linked with ⟨ruleset, -, -, plain, fragment⟩ | ⟨-, plain⟩
      · rw [plain, fragment]
        exact .captureOutput slot ruleset
      · rw [plain]
        exact .captureText slot (Pattern.fragment_feeds patterns linked)

theorem Token.fragment_feeds : ∀ ts : List Token, Token.Every (Matcher.Linked terminals n) ts →
    (Token.fragment ts).Feeds p
  | [], _ => by
      rw [Token.fragment]
      exact .pass
  | ⟨matcher, required, repeated, ahead, notAhead, _, _⟩ :: rest, ⟨here, later⟩ => by
      rw [Token.fragment]
      exact .andThen (.modified required repeated ahead notAhead matcher.slots
        (Matcher.fragment_feeds matcher here)) (Token.fragment_feeds rest later)

theorem Pattern.fragment_feeds : ∀ ps : List Pattern, Pattern.Every (Matcher.Linked terminals n) ps →
    (Pattern.fragment ps).Feeds p
  | [], _ => by
      rw [Pattern.fragment]
      exact .fail
  | ⟨tokens, _, _⟩ :: rest, ⟨here, later⟩ => by
      rw [Pattern.fragment]
      refine .orElse ?_ (Pattern.fragment_feeds rest later)
      split
      · exact Token.fragment_feeds tokens here
      · exact .atomically (Token.fragment_feeds tokens here)

end

namespace Program

/-- Rules begin with no op that takes a result: a rule goes on at its output, which takes none,
and only that turns to the op that leaves. -/
theorem rulesFragment_feeds {rules : List Rule}
    (linked : ∀ r ∈ rules, Pattern.Every (Matcher.Linked terminals n) r.patterns) (index base pass : Nat)
    {fail : Nat} (held : Holds p.ops base (rulesFragment index rules base pass fail).ops)
    (failed : ¬ p.Takes fail) : ¬ p.Takes (rulesFragment index rules base pass fail).entry ∧
      ∀ o ∈ (rulesFragment index rules base pass fail).ops, p.Lacks o := by
  induction rules generalizing index with
  | nil => exact ⟨failed, List.forall_mem_nil _⟩
  | cons r rest ih =>
      rw [List.forall_mem_cons] at linked
      obtain ⟨entry, others⟩ := ih linked.2 (index + 1) held.left
      have first := held.right
      obtain ⟨entry', inside⟩ := Pattern.fragment_feeds r.patterns linked.1 _ _ _ first.tail
        (not_takes first.head not_false) entry
      refine ⟨entry', List.forall_mem_append.2 ⟨others, List.forall_mem_cons.2 ⟨?_, inside⟩⟩⟩
      exact fun t named => nomatch named

theorem rulesetOps_feeds {rulesets : List Ruleset}
    (linked : ∀ s ∈ rulesets, ∀ r ∈ s.rules, Pattern.Every (Matcher.Linked terminals n) r.patterns)
    (base index : Nat) (held : Holds p.ops base (rulesetOps base index rulesets).1)
    (failed : ¬ p.Takes retFailAt) : (∀ entry ∈ (rulesetOps base index rulesets).2, ¬ p.Takes entry) ∧
      ∀ o ∈ (rulesetOps base index rulesets).1, p.Lacks o := by
  induction rulesets generalizing base index with
  | nil => exact ⟨List.forall_mem_nil _, List.forall_mem_nil _⟩
  | cons s rest ih =>
      rw [List.forall_mem_cons] at linked
      obtain ⟨entry, first⟩ := rulesFragment_feeds linked.1 index base retAt held.left failed
      obtain ⟨entries, others⟩ := ih linked.2 _ _ held.right
      exact ⟨List.forall_mem_cons.2 ⟨entry, entries⟩, List.forall_mem_append.2 ⟨first, others⟩⟩

/-- In the program of a grammar nothing turns to an op that takes a result without one. -/
theorem ofGrammar_feeds {g : AnnotatedGrammar} (linked : g.Linked) (library : Library) :
    (ofGrammar g library).Feeds := by
  have held : Holds (ofGrammar g library).ops 2 (rulesetOps 2 0 g.grammar.rulesets).1 :=
    .toArray [Op.ret, Op.retFail] _ _
  obtain ⟨entries, inside⟩ := rulesetOps_feeds linked.every 2 0 held
    (not_takes (ofGrammar_retFail g library) not_false)
  obtain ⟨acceptAt, root, -, reject, call⟩ := ofGrammar_last g library
  have last : ∀ o ∈ [Op.accept, .reject, .call g.entry (2 + (rulesetOps 2 0 g.grammar.rulesets).1.length)
      (2 + (rulesetOps 2 0 g.grammar.rulesets).1.length + 1)], (ofGrammar g library).Lacks o := by
    have at_ : acceptAt = 2 + (rulesetOps 2 0 g.grammar.rulesets).1.length :=
      Nat.add_right_cancel root.symm
    rw [← at_]
    simp only [List.forall_mem_cons]
    exact ⟨List.forall_mem_nil _, List.forall_mem_nil _,
      Fragment.Feeds.lacks_one rfl (not_takes reject not_false), List.forall_mem_nil _⟩
  refine ⟨?_, ?_, root ▸ not_takes call not_false⟩
  · intro op o found
    have member : o ∈ [Op.ret, Op.retFail] ++ (rulesetOps 2 0 g.grammar.rulesets).1 ++ _ :=
      List.mem_of_getElem? ((List.getElem?_toArray ..).symm.trans found)
    simp only [List.append_assoc, List.mem_append, List.mem_cons, List.not_mem_nil, or_false] at member
    rcases member with (rfl | rfl) | here | behind
    · exact List.forall_mem_nil _
    · exact List.forall_mem_nil _
    · exact inside o here
    · exact last o (by simpa using behind)
  · intro ruleset entry found
    exact entries entry (List.mem_of_getElem? ((List.getElem?_toArray ..).symm.trans found))

end Program

end

end PegFlow
