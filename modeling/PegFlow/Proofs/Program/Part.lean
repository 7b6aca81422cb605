/-
# PegFlow.Proofs.Program.Part -- the parts of a grammar and where their ops are

`Compiled g part base pass fail` says that the program of the grammar has the ops of the
part at `base`, with the exits `pass` and `fail`. It follows the fragments: what is inside
a choice, a sequence, a token or a capture is placed as the fragment of the whole places
it, and the whole grammar is a reference to the ruleset `return`. The ops are there, and both
exits lie before them (`Compiled.stands`).
-/
import PegFlow.Proofs.Grammar.Linked
import PegFlow.Proofs.Machine.Fragment
import PegFlow.Proofs.Program.Closed

namespace PegFlow

set_option autoImplicit false

/-- A part of a grammar that has ops of its own. The rules carry the number of the first one. -/
inductive Part where
  | rules (index : Nat) (rules : List Rule)
  | choice (patterns : List Pattern)
  | pattern (tokens : List Token)
  | sequence (tokens : List Token)
  | token (t : Token)
  | quantified (t : Token)
  | matcher (m : Matcher)

namespace Part

/-- The ops of a part. -/
def fragment : Part → Fragment
  | .rules index rs => Program.rulesFragment index rs
  | .choice patterns => Pattern.fragment patterns
  | .pattern tokens =>
    if tokens.length < 2 then Token.fragment tokens else (Token.fragment tokens).atomically
  | .sequence tokens => Token.fragment tokens
  | .token t => t.matcher.fragment.modified t.required t.repeated t.ahead t.notAhead t.matcher.slots
  | .quantified t => t.matcher.fragment.modified t.required t.repeated false false t.matcher.slots
  | .matcher m => m.fragment

/-- Every matcher without patterns inside the part is so. -/
def Every (q : Matcher → Prop) : Part → Prop
  | .rules _ rs => ∀ r ∈ rs, Pattern.Every q r.patterns
  | .choice patterns => Pattern.Every q patterns
  | .pattern tokens => Token.Every q tokens
  | .sequence tokens => Token.Every q tokens
  | .token t => t.matcher.Every q
  | .quantified t => t.matcher.Every q
  | .matcher m => m.Every q

/-- Alternatives, a pattern, a token or a matcher: what has no effect when it fails. The tokens
of a pattern alone may leave something to undo, and rules give outputs. -/
def IsConstruct : Part → Prop
  | .rules .. => False
  | .sequence _ => False
  | _ => True

/-- A token that only looks ahead. -/
def IsPredicate : Part → Prop
  | .token t => t.isPredicate = true
  | _ => False

theorem fragment_movable {part : Part} (construct : part.IsConstruct) : part.fragment.Movable := by
  cases part with
  | rules index rules => exact construct.elim
  | choice patterns => exact Pattern.fragment_movable patterns
  | pattern tokens =>
      rw [fragment]
      split
      · exact Token.fragment_movable tokens
      · exact (Token.fragment_movable tokens).atomically
  | sequence tokens => exact construct.elim
  | token t => exact (Matcher.fragment_movable t.matcher).modified _ _ _ _ _
  | quantified t => exact (Matcher.fragment_movable t.matcher).modified _ _ _ _ _
  | matcher m => exact Matcher.fragment_movable m

theorem fragment_inner {part : Part} (construct : part.IsConstruct) : part.fragment.Inner := by
  cases part with
  | rules index rules => exact construct.elim
  | choice patterns => exact Pattern.fragment_inner patterns
  | pattern tokens =>
      rw [fragment]
      split
      · exact Token.fragment_inner tokens
      · exact (Token.fragment_inner tokens).atomically
  | sequence tokens => exact construct.elim
  | token t => exact (Matcher.fragment_inner t.matcher).modified _ _ _ _ _
  | quantified t => exact (Matcher.fragment_inner t.matcher).modified _ _ _ _ _
  | matcher m => exact Matcher.fragment_inner m

end Part

open Program in
/-- The ops of the part are in the program of the grammar at `base`, with these exits. -/
inductive Compiled (g : AnnotatedGrammar) : Part → (base pass fail : Nat) → Prop
  | whole : Compiled g (.matcher (.ref "return" (some g.entry)))
      (2 + (rulesetOps 2 0 g.grammar.rulesets).1.length + 2)
      (2 + (rulesetOps 2 0 g.grammar.rulesets).1.length)
      (2 + (rulesetOps 2 0 g.grammar.rulesets).1.length + 1)
  | ruleset {before after : List Ruleset} {s : Ruleset} (split : g.grammar.rulesets = before ++ s :: after) :
      Compiled g (.rules (before.flatMap Ruleset.rules).length s.rules)
        (2 + (rulesetOps 2 0 before).1.length) retAt retFailAt
  | rule {index base pass fail : Nat} {r : Rule} {rest : List Rule}
      (rules : Compiled g (.rules index (r :: rest)) base pass fail) :
      Compiled g (.choice r.patterns)
        (base + (rulesFragment (index + 1) rest base pass fail).ops.length + 1)
        (base + (rulesFragment (index + 1) rest base pass fail).ops.length)
        (rulesFragment (index + 1) rest base pass fail).entry
  | laterRules {index base pass fail : Nat} {r : Rule} {rest : List Rule}
      (rules : Compiled g (.rules index (r :: rest)) base pass fail) :
      Compiled g (.rules (index + 1) rest) base pass fail
  | pattern {base pass fail : Nat} {x : Pattern} {rest : List Pattern}
      (choice : Compiled g (.choice (x :: rest)) base pass fail) :
      Compiled g (.pattern x.tokens) (base + (Pattern.fragment rest base pass fail).ops.length) pass
        (Pattern.fragment rest base pass fail).entry
  | laterPatterns {base pass fail : Nat} {x : Pattern} {rest : List Pattern}
      (choice : Compiled g (.choice (x :: rest)) base pass fail) : Compiled g (.choice rest) base pass fail
  | lone {base pass fail : Nat} {tokens : List Token} (pattern : Compiled g (.pattern tokens) base pass fail)
      (short : tokens.length < 2) : Compiled g (.sequence tokens) base pass fail
  | several {base pass fail : Nat} {tokens : List Token}
      (pattern : Compiled g (.pattern tokens) base pass fail) (long : ¬ tokens.length < 2) :
      Compiled g (.sequence tokens) (base + 2) (base + 1) base
  | token {base pass fail : Nat} {t : Token} {rest : List Token}
      (sequence : Compiled g (.sequence (t :: rest)) base pass fail) :
      Compiled g (.token t) (base + (Token.fragment rest base pass fail).ops.length)
        (Token.fragment rest base pass fail).entry fail
  | laterTokens {base pass fail : Nat} {t : Token} {rest : List Token}
      (sequence : Compiled g (.sequence (t :: rest)) base pass fail) :
      Compiled g (.sequence rest) base pass fail
  | ahead {base pass fail : Nat} {t : Token} (token : Compiled g (.token t) base pass fail)
      (ahead : t.ahead = true) : Compiled g (.quantified t) (base + 2) base (base + 1)
  | notAhead {base pass fail : Nat} {t : Token} (token : Compiled g (.token t) base pass fail)
      (ahead : t.ahead = false) (notAhead : t.notAhead = true) :
      Compiled g (.quantified t) (base + 2) (base + 1) base
  | here {base pass fail : Nat} {t : Token} (token : Compiled g (.token t) base pass fail)
      (ahead : t.ahead = false) (notAhead : t.notAhead = false) :
      Compiled g (.quantified t) base pass fail
  | repeated {base pass fail : Nat} {t : Token} (quantified : Compiled g (.quantified t) base pass fail)
      (repeated : t.repeated = true) : Compiled g (.matcher t.matcher) (base + 2) (base + 1) base
  | once {base pass fail : Nat} {t : Token} (quantified : Compiled g (.quantified t) base pass fail)
      (repeated : t.repeated = false) (required : t.required = true) :
      Compiled g (.matcher t.matcher) base pass fail
  | optional {base pass fail : Nat} {t : Token} (quantified : Compiled g (.quantified t) base pass fail)
      (repeated : t.repeated = false) (required : t.required = false)
      (slots : t.matcher.slots.isEmpty = true) : Compiled g (.matcher t.matcher) base pass pass
  | optionalSlots {base pass fail : Nat} {t : Token}
      (quantified : Compiled g (.quantified t) base pass fail) (repeated : t.repeated = false)
      (required : t.required = false) (slots : t.matcher.slots.isEmpty = false) :
      Compiled g (.matcher t.matcher) (base + 1) pass base
  | group {base pass fail : Nat} {patterns : List Pattern}
      (matcher : Compiled g (.matcher (.group patterns)) base pass fail) :
      Compiled g (.choice patterns) base pass fail
  | capture {base pass fail slot : Nat} {patterns : List Pattern}
      (matcher : Compiled g (.matcher (.capture patterns slot)) base pass fail) :
      Compiled g (.choice patterns) (base + 2) base (base + 1)

namespace Program

/-- Rulesets are laid out one after the other. -/
theorem rulesetOps_append (before after : List Ruleset) (base index : Nat) :
    (rulesetOps base index (before ++ after)).1 =
      (rulesetOps base index before).1 ++
        (rulesetOps (base + (rulesetOps base index before).1.length)
          (index + (before.flatMap Ruleset.rules).length) after).1 := by
  induction before generalizing base index with
  | nil => rfl
  | cons s rest ih =>
      simp only [List.cons_append, rulesetOps, List.flatMap_cons, List.length_append]
      rw [ih, List.append_assoc, Nat.add_assoc, Nat.add_assoc]

end Program

/-- The ops of a part stand at `base` with both exits before them, and its annotations point at
what they name. -/
structure Part.Stands (part : Part) (p : Program) (q : Matcher → Prop) (base pass fail : Nat) : Prop where
  held : Holds p.ops base (part.fragment base pass fail).ops
  passBefore : pass < base
  failBefore : fail < base
  every : part.Every q

open Program

section

variable {g : AnnotatedGrammar} {part : Part} {base pass fail : Nat}

/-- The ops of every part of a grammar are where they are compiled to. The induction follows the
fragments: each one holds those of its parts between its own ops. -/
theorem Compiled.stands (library : Library) {q : Matcher → Prop} (every : g.grammar.Every q)
    (entry : q (.ref "return" (some g.entry))) (compiled : Compiled g part base pass fail) :
    part.Stands (ofGrammar g library) q base pass fail := by
  induction compiled with
  | whole =>
      refine ⟨fun i o found => ?_, by omega, by omega, entry⟩
      obtain ⟨acceptAt, root, -, -, call⟩ := ofGrammar_last g library
      obtain rfl : 2 + (rulesetOps 2 0 g.grammar.rulesets).1.length = acceptAt :=
        Nat.add_right_cancel (show _ + 2 = acceptAt + 2 from root)
      cases i with
      | zero =>
          cases found
          exact call
      | succ i => cases found
  | @ruleset before after s split =>
      have ops : Holds (ofGrammar g library).ops 2 (rulesetOps 2 0 g.grammar.rulesets).1 :=
        .toArray [Op.ret, Op.retFail] _ _
      rw [split, rulesetOps_append, Nat.zero_add] at ops
      exact ⟨ops.right.left, by simp only [retAt]; omega, by simp only [retFailAt]; omega,
        every s (by simp [split])⟩
  | @rule index base pass fail r rest rules ih =>
      obtain ⟨held, -, failBefore, inside⟩ := ih
      obtain ⟨-, entry⟩ := rulesFragment_stays rest (index + 1) base pass fail
      rw [Among] at entry
      rw [Part.fragment, rulesFragment] at held
      exact ⟨held.right.tail, by omega, by omega, inside r List.mem_cons_self⟩
  | @laterRules index base pass fail r rest rules ih =>
      obtain ⟨held, passBefore, failBefore, inside⟩ := ih
      rw [Part.fragment, rulesFragment] at held
      exact ⟨held.left, passBefore, failBefore, fun r member => inside r (List.mem_cons_of_mem _ member)⟩
  | @pattern base pass fail x rest choice ih =>
      obtain ⟨tokens, canFail, id⟩ := x
      obtain ⟨held, passBefore, failBefore, here, -⟩ := ih
      have entry := ((Pattern.fragment_movable rest).targets base pass fail).2
      rw [Part.fragment, Pattern.fragment] at held
      exact ⟨held.right, by omega, by omega, here⟩
  | @laterPatterns base pass fail x rest choice ih =>
      obtain ⟨tokens, canFail, id⟩ := x
      obtain ⟨held, passBefore, failBefore, -, later⟩ := ih
      rw [Part.fragment, Pattern.fragment] at held
      exact ⟨held.left, passBefore, failBefore, later⟩
  | @lone base pass fail tokens pattern short ih =>
      obtain ⟨held, passBefore, failBefore, inside⟩ := ih
      rw [Part.fragment, if_pos short] at held
      exact ⟨held, passBefore, failBefore, inside⟩
  | @several base pass fail tokens pattern long ih =>
      obtain ⟨held, -, -, inside⟩ := ih
      rw [Part.fragment, if_neg long] at held
      exact ⟨held.around.2.2.1, by omega, by omega, inside⟩
  | @token base pass fail t rest sequence ih =>
      obtain ⟨matcher, required, repeated, ahead, notAhead, id, pos⟩ := t
      obtain ⟨held, passBefore, failBefore, here, -⟩ := ih
      have entry := ((Token.fragment_movable rest).targets base pass fail).2
      rw [Part.fragment, Token.fragment] at held
      exact ⟨held.right, by omega, by omega, here⟩
  | @laterTokens base pass fail t rest sequence ih =>
      obtain ⟨matcher, required, repeated, ahead, notAhead, id, pos⟩ := t
      obtain ⟨held, passBefore, failBefore, -, later⟩ := ih
      rw [Part.fragment, Token.fragment] at held
      exact ⟨held.left, passBefore, failBefore, later⟩
  | @ahead base pass fail t token ahead ih =>
      obtain ⟨held, -, -, inside⟩ := ih
      simp only [Part.fragment, Fragment.modified, ahead, if_true] at held
      exact ⟨held.around.2.2.1, by omega, by omega, inside⟩
  | @notAhead base pass fail t token ahead notAhead ih =>
      obtain ⟨held, -, -, inside⟩ := ih
      simp only [Part.fragment, Fragment.modified, ahead, notAhead, if_true] at held
      exact ⟨held.around.2.2.1, by omega, by omega, inside⟩
  | @here base pass fail t token ahead notAhead ih =>
      obtain ⟨held, passBefore, failBefore, inside⟩ := ih
      rw [Part.fragment, ahead, notAhead] at held
      exact ⟨held, passBefore, failBefore, inside⟩
  | @repeated base pass fail t quantified repeated ih =>
      obtain ⟨held, -, -, inside⟩ := ih
      simp only [Part.fragment, Fragment.modified, repeated, if_true] at held
      exact ⟨held.around.2.2.1, by omega, by omega, inside⟩
  | @once base pass fail t quantified repeated required ih =>
      obtain ⟨held, passBefore, failBefore, inside⟩ := ih
      simp only [Part.fragment, Fragment.modified, repeated, required, if_true] at held
      exact ⟨held, passBefore, failBefore, inside⟩
  | @optional base pass fail t quantified repeated required slots ih =>
      obtain ⟨held, passBefore, -, inside⟩ := ih
      simp only [Part.fragment, Fragment.modified, repeated, required, Bool.false_eq_true, if_false,
        Fragment.optional, slots, if_true] at held
      exact ⟨held, passBefore, passBefore, inside⟩
  | @optionalSlots base pass fail t quantified repeated required slots ih =>
      obtain ⟨held, passBefore, -, inside⟩ := ih
      simp only [Part.fragment, Fragment.modified, repeated, required, Bool.false_eq_true, if_false,
        Fragment.optional, slots] at held
      exact ⟨held.tail, by omega, by omega, inside⟩
  | @group base pass fail patterns matcher ih =>
      obtain ⟨held, passBefore, failBefore, inside⟩ := ih
      rw [Part.fragment, Matcher.fragment] at held
      exact ⟨held, passBefore, failBefore, inside⟩
  | @capture base pass fail slot patterns matcher ih =>
      obtain ⟨held, -, -, inside⟩ := ih
      rw [Part.fragment, Matcher.fragment] at held
      exact ⟨held.around.2.2.1, by omega, by omega, inside⟩

end

end PegFlow
