/-
# PegFlow.Grammar.Slots — where captures go

The captures of a rule are numbered from one in the order in which they are
written, outer ones first. Alternatives share their slots: each alternative of a
choice starts with the same slot and must have the same layout, which is the
list that says of each slot whether it is repeated. A slot is repeated when its
capture, or something around it, may match again and again.
-/
import PegFlow.Grammar.Error
import PegFlow.Grammar.Traverse

namespace PegFlow

set_option autoImplicit false

/-- Where the first token of a pattern was written, or else the pattern. -/
def Pattern.posOr (tokens : List Token) (pos : Option SourcePosition) : Option SourcePosition :=
  (tokens.head?.bind Token.pos).or pos

/-- Whether a layout agrees with that of the first alternative. -/
def Pattern.checkLayout (ruleset : String) (pos : Option SourcePosition)
    (expected : Option (List Bool)) (layout : List Bool) : Except GrammarError Unit :=
  match expected with
  | none => .ok ()
  | some first =>
    if first = layout then .ok ()
    else .error (.captureMismatch ruleset first.length layout.length pos)

mutual

/-- Number the slots of a matcher from `next` on; the second part is their
layout. -/
def Matcher.layOut (ruleset : String) (next : Nat) (repeated : Bool)
    (pos : Option SourcePosition) : Matcher → Except GrammarError (Matcher × List Bool)
  | .capture patterns _ => do
    let (patterns, layout) ← Pattern.layOut ruleset (next + 1) repeated pos none patterns
    return (.capture patterns next, repeated :: layout)
  | .group patterns => do
    let (patterns, layout) ← Pattern.layOut ruleset next repeated pos none patterns
    return (.group patterns, layout)
  | matcher => .ok (matcher, [])
termination_by structural x => x

def Token.layOut (ruleset : String) (next : Nat) (repeated : Bool)
    (pos : Option SourcePosition) : List Token → Except GrammarError (List Token × List Bool)
  | [] => .ok ([], [])
  | ⟨matcher, required, again, ahead, notAhead, id, written⟩ :: rest => do
    let (matcher, here) ← matcher.layOut ruleset next (repeated || again) (written.or pos)
    let (rest, later) ← Token.layOut ruleset (next + here.length) repeated pos rest
    return (⟨matcher, required, again, ahead, notAhead, id, written⟩ :: rest, here ++ later)
termination_by structural x => x

/-- Number the slots of a choice, the layout of whose first alternative, if that
went before, is `expected`. -/
def Pattern.layOut (ruleset : String) (next : Nat) (repeated : Bool)
    (pos : Option SourcePosition) (expected : Option (List Bool)) :
    List Pattern → Except GrammarError (List Pattern × List Bool)
  | [] => .ok ([], expected.getD [])
  | ⟨tokens, canFail, id⟩ :: rest => do
    let (tokens, layout) ← Token.layOut ruleset next repeated pos tokens
    Pattern.checkLayout ruleset (Pattern.posOr tokens pos) expected layout
    let first := expected.getD layout
    let (rest, _) ← Pattern.layOut ruleset next repeated pos (some first) rest
    return (⟨tokens, canFail, id⟩ :: rest, first)
termination_by structural x => x

end

/-- The grammar with the slots of every capture and the layout of every rule. -/
def Grammar.layOut? (g : Grammar) : Except GrammarError Grammar :=
  g.mapRulesM fun s r => do
    let (patterns, captures) ← Pattern.layOut s.name 1 false r.pos none r.patterns
    return { r with patterns, captures }

end PegFlow
