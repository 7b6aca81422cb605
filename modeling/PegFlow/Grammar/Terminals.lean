/-
# PegFlow.Grammar.Terminals — the terminals of a grammar

Every text, class and any-character matcher gets the id of its terminal in one
table for the whole grammar.
-/
import PegFlow.Grammar.Error
import PegFlow.Grammar.Traverse
import PegFlow.Terminal

namespace PegFlow.Grammar

set_option autoImplicit false

/-- A matcher with the id of its terminal, if it is one. -/
def internLeaf (pos : Option SourcePosition) :
    Matcher → StateT TerminalTable (Except GrammarError) Matcher
  | .literal text _ => fun table =>
    let (id, table) := table.literal text
    .ok (.literal text (some id), table)
  | .charClass spec _ => fun table =>
    match table.charClass spec with
    | .ok (id, table) => .ok (.charClass spec (some id), table)
    | .error r => .error (.invalidClass r.first r.last pos)
  | .any _ => fun table =>
    let (id, table) := table.any
    .ok (.any (some id), table)
  | matcher => fun table => .ok (matcher, table)

/-- The grammar with the id of every terminal, and the table of the terminals. -/
def intern? (g : Grammar) : Except GrammarError (Grammar × TerminalTable) :=
  (g.mapLeavesM internLeaf).run TerminalTable.empty

end PegFlow.Grammar
