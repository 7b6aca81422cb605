/-
# PegFlow.Grammar.Nullable — matching without input

A ruleset is nullable when some pattern of it has nullable tokens only. A token
is when it is not required or only looks ahead, when it is an empty text or a
choice with a nullable pattern, or when it refers to a nullable ruleset. The
nullable rulesets are the least set that is closed under these rules: marks
start unset, and a pass over the rulesets sets those that the marks so far call
for. Each pass but the last one sets a mark, so one pass more than there are
rulesets is enough.
-/
import PegFlow.Grammar

namespace PegFlow

set_option autoImplicit false

mutual

/-- Whether a matcher may match nothing, `marks` telling the nullable rulesets. -/
def Matcher.nullable (marks : List Bool) : Matcher → Bool
  | .capture patterns _ => Pattern.someNullable marks patterns
  | .group patterns => Pattern.someNullable marks patterns
  | .ref _ target => (target.bind fun i => marks[i]?).getD false
  | .literal text _ => text == ""
  | .charClass .. => false
  | .any _ => false
termination_by structural x => x

def Token.allNullable (marks : List Bool) : List Token → Bool
  | [] => true
  | ⟨matcher, required, _, ahead, notAhead, _, _⟩ :: rest =>
    (!required || ahead || notAhead || matcher.nullable marks) && Token.allNullable marks rest
termination_by structural x => x

def Pattern.someNullable (marks : List Bool) : List Pattern → Bool
  | [] => false
  | ⟨tokens, _, _⟩ :: rest => Token.allNullable marks tokens || Pattern.someNullable marks rest
termination_by structural x => x

end

def Token.nullable (marks : List Bool) (t : Token) : Bool :=
  !t.required || t.isPredicate || t.matcher.nullable marks

def Ruleset.nullable (marks : List Bool) (s : Ruleset) : Bool :=
  s.rules.any fun r => Pattern.someNullable marks r.patterns

namespace Grammar

/-- One pass: set the mark of every ruleset that the marks so far call for, the
marks set earlier in the pass included. -/
def nullablePass (g : Grammar) (marks : List Bool) : List Bool :=
  g.rulesets.zipIdx.foldl
    (fun marks s => if s.1.nullable marks then marks.set s.2 true else marks) marks

/-- Passes until nothing changes. -/
def settleNullable (g : Grammar) : Nat → List Bool → List Bool
  | 0, marks => marks
  | passes + 1, marks =>
    let next := g.nullablePass marks
    if next = marks then marks else g.settleNullable passes next

/-- For each ruleset whether it is nullable. -/
def nullable (g : Grammar) : List Bool :=
  g.settleNullable (g.rulesets.length + 1) (g.rulesets.map fun _ => false)

end Grammar

end PegFlow
