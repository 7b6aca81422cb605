/-
# PegFlow.Proofs.Stream.Order -- the order of rulesets does not matter

The order in which rulesets are declared decides the number of every ruleset, rule, terminal and op,
and nothing else. So grammars with the same rulesets in another order are accepted alike, and their
parsers parse every text alike (`Parser.order_irrelevant`): their programs are the same under other
numbers, and answers do not tell numbers.
-/
import PegFlow.Proofs.Program.Order

namespace PegFlow

set_option autoImplicit false

open Grammar

namespace Parser

/-- What it takes to make a parser of a grammar. -/
theorem exists_ofGrammar?_iff {g : Grammar} {config : ParserConfig} :
    (∃ parser, ofGrammar? g config = .ok parser) ↔ g.Acceptable (Keyed.keys config.callbacks) ∧
      ∃ constants, Constant.evaluate? config.callbacks [] g.constants = .ok constants := by
  rw [← exists_annotate?_iff]
  constructor
  · rintro ⟨parser, made⟩
    obtain ⟨a, accepted, made⟩ := Except.bind_eq_ok made
    obtain ⟨constants, evaluated, -⟩ := Except.bind_eq_ok made
    rw [annotate?_constants accepted] at evaluated
    exact ⟨⟨a, accepted⟩, constants, evaluated⟩
  · rintro ⟨⟨a, accepted⟩, constants, evaluated⟩
    rw [← annotate?_constants accepted] at evaluated
    unfold ofGrammar?
    rw [accepted]
    simp only [bind, Except.bind, evaluated]
    exact ⟨_, rfl⟩

/-- Grammars with the same rulesets, in whatever order they are declared, are accepted alike, and
then every text is parsed alike: to the same value, or to the same error, its position, line,
column and expected texts included. -/
theorem order_irrelevant {g g' : Grammar} (same : g.Reordered g') (config : ParserConfig) :
    ((∃ parser, ofGrammar? g config = .ok parser) ↔ ∃ parser', ofGrammar? g' config = .ok parser') ∧
      ∀ parser parser', ofGrammar? g config = .ok parser → ofGrammar? g' config = .ok parser' →
        ∀ text, text.utf8ByteSize ≤ Buffer.maxOffset → parser'.parse text = parser.parse text := by
  constructor
  · rw [exists_ofGrammar?_iff, exists_ofGrammar?_iff, same.acceptable_iff, same.constants]
  · intro parser parser' made made' text fits
    obtain ⟨a, accepted, made⟩ := Except.bind_eq_ok made
    obtain ⟨constants, evaluated, made⟩ := Except.bind_eq_ok made
    obtain ⟨a', accepted', made'⟩ := Except.bind_eq_ok made'
    obtain ⟨constants', evaluated', made'⟩ := Except.bind_eq_ok made'
    rw [annotate?_constants accepted, same.constants] at evaluated
    rw [annotate?_constants accepted'] at evaluated'
    obtain rfl : constants = constants' := Except.ok.inj (evaluated.symm.trans evaluated')
    cases made
    cases made'
    have renumbered := (same.reorders accepted accepted').renumbered (annotate?_sited accepted)
      (annotate?_sited accepted') { constants, callbacks := config.callbacks }
    exact parse_renumbered rfl (annotate?_linked accepted) renumbered fits

end Parser

namespace Grammar

/-- Words with commas between them, the ruleset `return` declared last. -/
def wordsLast : Grammar := { words with rulesets := words.rulesets.reverse }

theorem words_reordered : words.Reordered wordsLast := ⟨(List.reverse_perm _).symm, rfl⟩

end Grammar

/-- Both orders of the rulesets for words with commas between them make a parser, with other
programs, and the two parse a text alike. -/
theorem Parser.order_irrelevant_for_words : words.Reordered wordsLast ∧
    ∃ parser parser', ofGrammar? words {} = .ok parser ∧ ofGrammar? wordsLast {} = .ok parser' ∧
      parser'.program.ops ≠ parser.program.ops ∧ parser'.parse "a,b" = parser.parse "a,b" ∧
      parser'.parse "a," = parser.parse "a," := by
  obtain ⟨parser, made⟩ : ∃ parser, ofGrammar? words {} = .ok parser :=
    Except.eq_ok_of_isSome (by decide +kernel)
  obtain ⟨parser', made'⟩ := (order_irrelevant words_reordered {}).1.1 ⟨parser, made⟩
  have alike := (order_irrelevant words_reordered {}).2 parser parser' made made'
  refine ⟨words_reordered, parser, parser', made, made', ?_, alike "a,b" (by decide +kernel),
    alike "a," (by decide +kernel)⟩
  have differ : (ofGrammar? wordsLast {}).toOption.map (fun p => p.program.ops) ≠
      (ofGrammar? words {}).toOption.map (fun p => p.program.ops) := by
    decide +kernel
  rw [made, made'] at differ
  exact fun eq => differ (congrArg some eq)

end PegFlow
