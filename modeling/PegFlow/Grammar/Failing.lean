/-
# PegFlow.Grammar.Failing — patterns that always match

A pattern cannot fail when none of its tokens can. A token that is not required
cannot, nor an empty text, nor a choice with an alternative that cannot; a
negative lookahead always can. This is an estimate: how often a token is to match
is not looked at, and what it calls able to fail may never do so.
-/
import PegFlow.Grammar

namespace PegFlow

set_option autoImplicit false

mutual

/-- Whether a matcher can fail. -/
def Matcher.mayFail : Matcher → Bool
  | .literal text _ => text != ""
  | .capture patterns _ => Pattern.allMayFail patterns
  | .group patterns => Pattern.allMayFail patterns
  | _ => true

def Token.someMayFail : List Token → Bool
  | [] => false
  | ⟨matcher, required, _, _, notAhead, _, _⟩ :: rest =>
    (notAhead || required && matcher.mayFail) || Token.someMayFail rest

def Pattern.allMayFail : List Pattern → Bool
  | [] => true
  | ⟨tokens, _, _⟩ :: rest => Token.someMayFail tokens && Pattern.allMayFail rest

end

mutual

/-- A matcher whose patterns say whether they can fail. -/
def Matcher.markFailing : Matcher → Matcher
  | .capture patterns slot => .capture (Pattern.markFailing patterns) slot
  | .group patterns => .group (Pattern.markFailing patterns)
  | matcher => matcher

def Token.markFailing : List Token → List Token
  | [] => []
  | ⟨matcher, required, repeated, ahead, notAhead, id, pos⟩ :: rest =>
    ⟨matcher.markFailing, required, repeated, ahead, notAhead, id, pos⟩ :: Token.markFailing rest

def Pattern.markFailing : List Pattern → List Pattern
  | [] => []
  | ⟨tokens, _, id⟩ :: rest =>
    ⟨Token.markFailing tokens, Token.someMayFail tokens, id⟩ :: Pattern.markFailing rest

end

/-- The grammar in which every pattern says whether it can fail. -/
def Grammar.markFailing (g : Grammar) : Grammar :=
  { g with
    rulesets := g.rulesets.map fun s =>
      { s with rules := s.rules.map fun r => { r with patterns := Pattern.markFailing r.patterns } } }

end PegFlow
