/-
# PegFlow.Grammar.Numbering — node ids

Rulesets, rules, patterns and tokens are numbered from one in the order in which
they are written, each before the nodes inside it, without gaps.
-/
import PegFlow.Grammar

namespace PegFlow

set_option autoImplicit false

mutual

/-- Number a matcher's nodes, `n` being the next free id; the second part is the
next free id after them. -/
def Matcher.number (n : Nat) : Matcher → Matcher × Nat
  | .capture patterns slot =>
    let (patterns, n) := Pattern.numberList n patterns
    (.capture patterns slot, n)
  | .group patterns =>
    let (patterns, n) := Pattern.numberList n patterns
    (.group patterns, n)
  | matcher => (matcher, n)
termination_by structural m => m

def Token.numberList (n : Nat) : List Token → List Token × Nat
  | [] => ([], n)
  | ⟨matcher, required, repeated, ahead, notAhead, _, pos⟩ :: rest =>
    let (matcher, m) := matcher.number (n + 1)
    let (rest, m) := Token.numberList m rest
    (⟨matcher, required, repeated, ahead, notAhead, n, pos⟩ :: rest, m)
termination_by structural ts => ts

def Pattern.numberList (n : Nat) : List Pattern → List Pattern × Nat
  | [] => ([], n)
  | ⟨tokens, canFail, _⟩ :: rest =>
    let (tokens, m) := Token.numberList (n + 1) tokens
    let (rest, m) := Pattern.numberList m rest
    (⟨tokens, canFail, n⟩ :: rest, m)
termination_by structural ps => ps

end

def Rule.numberList (n : Nat) : List Rule → List Rule × Nat
  | [] => ([], n)
  | r :: rest =>
    let (patterns, m) := Pattern.numberList (n + 1) r.patterns
    let (rest, m) := Rule.numberList m rest
    ({ r with patterns, id := n } :: rest, m)

def Ruleset.numberList (n : Nat) : List Ruleset → List Ruleset × Nat
  | [] => ([], n)
  | r :: rest =>
    let (rules, m) := Rule.numberList (n + 1) r.rules
    let (rest, m) := Ruleset.numberList m rest
    ({ r with rules, id := n } :: rest, m)

/-- The grammar with every node numbered. -/
def Grammar.number (g : Grammar) : Grammar :=
  let (rulesets, next) := Ruleset.numberList 1 g.rulesets
  { g with rulesets, maxId := next - 1 }

end PegFlow
