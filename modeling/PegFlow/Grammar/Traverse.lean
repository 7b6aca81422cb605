/-
# PegFlow.Grammar.Traverse — changing matchers throughout a grammar

`mapLeavesM` runs over the matchers that hold no patterns, in the order in which
they are written, and puts another matcher in the place of each.
-/
import PegFlow.Grammar

namespace PegFlow

set_option autoImplicit false

variable {m : Type → Type} [Monad m]

mutual

/-- Replace the matchers without patterns inside a matcher at `pos`. -/
def Matcher.mapLeavesM (f : Option SourcePosition → Matcher → m Matcher)
    (pos : Option SourcePosition) : Matcher → m Matcher
  | .capture patterns slot => do return .capture (← Pattern.mapLeavesM f patterns) slot
  | .group patterns => do return .group (← Pattern.mapLeavesM f patterns)
  | .ref name target => f pos (.ref name target)
  | .literal text terminal => f pos (.literal text terminal)
  | .charClass spec terminal => f pos (.charClass spec terminal)
  | .any terminal => f pos (.any terminal)
termination_by structural x => x

def Token.mapLeavesM (f : Option SourcePosition → Matcher → m Matcher) :
    List Token → m (List Token)
  | [] => return []
  | ⟨matcher, required, repeated, ahead, notAhead, id, pos⟩ :: rest => do
    let matcher ← matcher.mapLeavesM f pos
    return ⟨matcher, required, repeated, ahead, notAhead, id, pos⟩ :: (← Token.mapLeavesM f rest)
termination_by structural x => x

def Pattern.mapLeavesM (f : Option SourcePosition → Matcher → m Matcher) :
    List Pattern → m (List Pattern)
  | [] => return []
  | ⟨tokens, canFail, id⟩ :: rest => do
    let tokens ← Token.mapLeavesM f tokens
    return ⟨tokens, canFail, id⟩ :: (← Pattern.mapLeavesM f rest)
termination_by structural x => x

end

/-- Replace the patterns of every rule, in order. -/
def Grammar.mapRulesM (f : Ruleset → Rule → m Rule) (g : Grammar) : m Grammar := do
  let rulesets ← g.rulesets.mapM fun s => do return { s with rules := ← s.rules.mapM (f s) }
  return { g with rulesets }

/-- Replace the matchers without patterns in a whole grammar. -/
def Grammar.mapLeavesM (f : Option SourcePosition → Matcher → m Matcher) (g : Grammar) :
    m Grammar :=
  g.mapRulesM fun _ r => do return { r with patterns := ← Pattern.mapLeavesM f r.patterns }

end PegFlow
