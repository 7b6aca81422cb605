/-
# PegFlow.Grammar.Annotated — grammars ready for use

`Grammar.annotate?` checks a grammar and works out its annotations: first the
node ids, then what references mean, then capture slots, terminals and which
patterns can fail. Templates are checked last. What is refused first is what is
reported.
-/
import PegFlow.Grammar.Failing
import PegFlow.Grammar.Numbering
import PegFlow.Grammar.References
import PegFlow.Grammar.Slots
import PegFlow.Grammar.TemplateCheck
import PegFlow.Grammar.Terminals
import PegFlow.Grammar.Warning

namespace PegFlow

set_option autoImplicit false

/-- A grammar with its annotations, the terminals they refer to, the place of the
ruleset `return`, and what looks wrong in it. -/
structure AnnotatedGrammar where
  grammar : Grammar
  terminals : List Terminal
  entry : Nat
  warnings : List Warning

/-- Check and annotate a grammar whose templates may call `callbacks`. -/
def Grammar.annotate? (g : Grammar) (callbacks : List String) :
    Except GrammarError AnnotatedGrammar := do
  let g := g.number
  let entry ← g.entry?
  let g ← g.indexed.resolve?
  g.checkReachable entry
  let g ← g.layOut?
  let (g, table) ← g.intern?
  let g := g.markFailing
  g.checkTemplates callbacks
  return { grammar := g, terminals := table.terminals, entry, warnings := g.warnings }

end PegFlow
