/-
# PegFlow.Grammar.Warning — what looks wrong in a grammar

Two findings do not stop a grammar from being used: alternatives that come after
one that is judged unable to fail, and left recursion, which works but may not be
meant. They are listed ruleset by ruleset, the left recursion last.
-/
import PegFlow.Grammar.LeftRecursion

namespace PegFlow

set_option autoImplicit false

/-- What kind of finding it is. -/
inductive WarningKind where
  | unreachableAlternative
  | leftRecursion
deriving DecidableEq, Repr

def WarningKind.name : WarningKind → String
  | .unreachableAlternative => "unreachable alternative"
  | .leftRecursion => "left recursion"

/-- A finding in a ruleset. -/
structure Warning where
  kind : WarningKind
  ruleset : String
  message : String
  pos : Option SourcePosition
deriving DecidableEq, Repr

namespace Warning

def describe (w : Warning) : String :=
  let text := s!"[{w.ruleset}] {w.kind.name}: {w.message}"
  match w.pos with
  | some pos => text ++ " at " ++ pos.describe
  | none => text

/-- Alternatives of a choice after one that cannot fail. -/
def ofChoice (ruleset : String) (pos : Option SourcePosition) (patterns : List Pattern) :
    List Warning :=
  match patterns.findIdx? fun p => !p.canFail with
  | none => []
  | some i =>
    if patterns.length ≤ i + 1 then []
    else
      let rest := patterns.length - (i + 1)
      let option := i + 1
      [{ kind := .unreachableAlternative, ruleset, pos
         message := s!"{rest} option(s) after option {option} of a nested choice can never match" }]

mutual

/-- Findings in the choices inside a matcher at `pos`. -/
def ofMatcher (ruleset : String) (pos : Option SourcePosition) : Matcher → List Warning
  | .capture patterns _ => ofChoice ruleset pos patterns ++ ofPatterns ruleset patterns
  | .group patterns => ofChoice ruleset pos patterns ++ ofPatterns ruleset patterns
  | _ => []
termination_by structural x => x

def ofTokens (ruleset : String) : List Token → List Warning
  | [] => []
  | ⟨matcher, _, _, _, _, _, pos⟩ :: rest => ofMatcher ruleset pos matcher ++ ofTokens ruleset rest
termination_by structural x => x

def ofPatterns (ruleset : String) : List Pattern → List Warning
  | [] => []
  | ⟨tokens, _, _⟩ :: rest => ofTokens ruleset tokens ++ ofPatterns ruleset rest
termination_by structural x => x

end

/-- The finding that alternative `number` comes after one that cannot fail. -/
def shadowed (ruleset : String) (pos : Option SourcePosition) (number : Nat) : Warning :=
  { kind := .unreachableAlternative, ruleset, pos
    message := s!"alternative {number} follows an alternative that cannot fail" }

/-- Findings in the alternatives of a ruleset, given where each was written.
`number` is that of the first one, and `blocked` says whether an earlier one
cannot fail. -/
def ofAlternatives (ruleset : String) (number : Nat) (blocked : Bool) :
    List (Option SourcePosition × Pattern) → List Warning
  | [] => []
  | (pos, p) :: rest =>
    (if blocked then [shadowed ruleset pos number] else []) ++ ofTokens ruleset p.tokens ++
      ofAlternatives ruleset (number + 1) (blocked || !p.canFail) rest

def ofRuleset (s : Ruleset) : List Warning :=
  ofAlternatives s.name 1 false (s.rules.flatMap fun r => r.patterns.map fun p => (r.pos, p))

/-- The finding that a ruleset is left recursive. -/
def ofLeftRecursion (s : Ruleset) : Warning :=
  { kind := .leftRecursion, ruleset := s.name, pos := s.pos
    message := s!"`{s.name}` can reach itself without consuming input" }

end Warning

/-- All findings in an annotated grammar. -/
def Grammar.warnings (g : Grammar) : List Warning :=
  g.rulesets.flatMap Warning.ofRuleset ++ g.leftRecursive.map Warning.ofLeftRecursion

end PegFlow
