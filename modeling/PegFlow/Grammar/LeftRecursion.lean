/-
# PegFlow.Grammar.LeftRecursion — rulesets that reach themselves at once

A ruleset calls another one at its start when the call can come before any input
is used up: all tokens before it are nullable. A ruleset that reaches itself by
such calls is left recursive.
-/
import PegFlow.Grammar.Nullable
import PegFlow.Grammar.Reachability

namespace PegFlow

set_option autoImplicit false

mutual

/-- The rulesets that a matcher calls at its start. -/
def Matcher.leadingCalls (marks : List Bool) : Matcher → List Nat
  | .capture patterns _ => Pattern.leadingCalls marks patterns
  | .group patterns => Pattern.leadingCalls marks patterns
  | .ref _ target => target.toList
  | _ => []
termination_by structural x => x

def Token.leadingCalls (marks : List Bool) : List Token → List Nat
  | [] => []
  | ⟨matcher, required, repeated, ahead, notAhead, id, pos⟩ :: rest =>
    matcher.leadingCalls marks ++
      if Token.nullable marks ⟨matcher, required, repeated, ahead, notAhead, id, pos⟩ then
        Token.leadingCalls marks rest
      else []
termination_by structural x => x

def Pattern.leadingCalls (marks : List Bool) : List Pattern → List Nat
  | [] => []
  | ⟨tokens, _, _⟩ :: rest => Token.leadingCalls marks tokens ++ Pattern.leadingCalls marks rest
termination_by structural x => x

end

namespace Grammar

/-- For each ruleset the rulesets that it calls at its start. -/
def leadingCalls (g : Grammar) : List (List Nat) :=
  let marks := g.nullable
  g.rulesets.map fun s => s.rules.flatMap fun r => Pattern.leadingCalls marks r.patterns

/-- The rulesets that reach themselves without using up input. -/
def leftRecursive (g : Grammar) : List Ruleset :=
  let edges := g.leadingCalls
  (g.rulesets.zipIdx.filter fun s => Graph.onCycle edges s.2).map Prod.fst

end Grammar

end PegFlow
