/-
# PegFlow.Grammar — grammars as data

A grammar is a list of named rulesets and named constants. A ruleset is an
ordered choice of rules. A rule is an ordered choice of patterns with one output
template, a pattern a sequence of tokens, and a token a matcher with modifiers:
how often it matches and whether it only looks ahead.

Some fields are annotations: node ids, capture slots and their arities, the
targets of references, the ids of terminals, whether a pattern can fail, and
where the rulesets are. They are worked out from the rest (`Grammar.annotate?`) and have a default
until then.
-/
import PegFlow.Template
import PegFlow.CharClass

namespace PegFlow

set_option autoImplicit false

mutual

/-- What a token matches. -/
inductive Matcher where
  /-- One of the patterns, recorded in a slot. -/
  | capture (patterns : List Pattern) (slot : Nat)
  /-- One of the patterns. -/
  | group (patterns : List Pattern)
  /-- A ruleset, by its name and, as an annotation, by its place. -/
  | ref (name : String) (target : Option Nat)
  | literal (text : String) (terminal : Option Nat)
  | charClass (spec : ClassSpec) (terminal : Option Nat)
  | any (terminal : Option Nat)

/-- A matcher with its modifiers. A token that is not required may match nothing,
one that is repeated may match again and again. `ahead` and `notAhead` make it a
test of what follows, which matches nothing itself. -/
structure Token where
  matcher : Matcher
  required : Bool := true
  repeated : Bool := false
  ahead : Bool := false
  notAhead : Bool := false
  id : Nat := 0
  pos : Option SourcePosition := none

/-- Tokens matched one after the other. -/
structure Pattern where
  tokens : List Token
  canFail : Bool := true
  id : Nat := 0

end

/-- Patterns tried in order, and the output of the match: the matched text when
there is no template. `captures` says for each slot whether it is repeated. -/
structure Rule where
  patterns : List Pattern
  output : Option Template := none
  captures : List Bool := []
  id : Nat := 0
  pos : Option SourcePosition := none

/-- Rules tried in order, under a name. -/
structure Ruleset where
  name : String
  rules : List Rule
  id : Nat := 0
  pos : Option SourcePosition := none

/-- A constant, whose template refers to no match. -/
structure Constant where
  name : String
  value : Template
  pos : Option SourcePosition := none

/-- Rulesets, one of which is named `return` and is what the input must match.
`lookup` has the places of the rulesets by name. -/
structure Grammar where
  rulesets : List Ruleset
  constants : List Constant := []
  lookup : Keyed Nat := []
  maxId : Nat := 0

instance : Inhabited Matcher := ⟨.any none⟩
instance : Inhabited Token := ⟨⟨.any none, true, false, false, false, 0, none⟩⟩
instance : Inhabited Pattern := ⟨⟨[], true, 0⟩⟩

namespace Matcher

def patterns : Matcher → List Pattern
  | .capture patterns _ => patterns
  | .group patterns => patterns
  | _ => []

def isChoice : Matcher → Bool
  | .capture .. => true
  | .group _ => true
  | _ => false

mutual

/-- The capture slots inside, outermost first. All alternatives have the same
slots, so the first one is looked at. -/
def slots : Matcher → List Nat
  | .capture patterns slot => slot :: firstSlots patterns
  | .group patterns => firstSlots patterns
  | _ => []

def firstSlots : List Pattern → List Nat
  | [] => []
  | ⟨tokens, _, _⟩ :: _ => tokenSlots tokens

def tokenSlots : List Token → List Nat
  | [] => []
  | ⟨matcher, _, _, _, _, _, _⟩ :: rest => matcher.slots ++ tokenSlots rest

end

end Matcher

namespace Token

def isPredicate (t : Token) : Bool := t.ahead || t.notAhead

end Token

namespace Pattern

mutual

/-- The tokens of the patterns and all tokens inside them, outer ones first. -/
def allTokens : List Pattern → List Token
  | [] => []
  | ⟨tokens, _, _⟩ :: rest => allTokensOf tokens ++ allTokens rest

def allTokensOf : List Token → List Token
  | [] => []
  | ⟨matcher, required, repeated, ahead, notAhead, id, pos⟩ :: rest =>
    ⟨matcher, required, repeated, ahead, notAhead, id, pos⟩ ::
      (allTokensIn matcher ++ allTokensOf rest)

def allTokensIn : Matcher → List Token
  | .capture patterns _ => allTokens patterns
  | .group patterns => allTokens patterns
  | _ => []

end

/-- The places of the rulesets that the patterns refer to anywhere. -/
def targets (patterns : List Pattern) : List Nat :=
  (allTokens patterns).filterMap fun t =>
    match t.matcher with
    | .ref _ target => target
    | _ => none

end Pattern

mutual

/-- Equality of matchers, annotations and positions included. -/
def Matcher.beq : Matcher → Matcher → Bool
  | .capture ps slot, .capture ps' slot' => Pattern.beqList ps ps' && slot == slot'
  | .group ps, .group ps' => Pattern.beqList ps ps'
  | .ref name target, .ref name' target' => name == name' && target == target'
  | .literal text terminal, .literal text' terminal' => text == text' && terminal == terminal'
  | .charClass spec terminal, .charClass spec' terminal' => spec == spec' && terminal == terminal'
  | .any terminal, .any terminal' => terminal == terminal'
  | _, _ => false

def Token.beqList : List Token → List Token → Bool
  | [], [] => true
  | ⟨m, required, repeated, ahead, notAhead, id, pos⟩ :: rest,
    ⟨m', required', repeated', ahead', notAhead', id', pos'⟩ :: rest' =>
    m.beq m' && required == required' && repeated == repeated' && ahead == ahead' &&
      notAhead == notAhead' && id == id' && pos == pos' && Token.beqList rest rest'
  | _, _ => false

def Pattern.beqList : List Pattern → List Pattern → Bool
  | [], [] => true
  | ⟨tokens, canFail, id⟩ :: rest, ⟨tokens', canFail', id'⟩ :: rest' =>
    Token.beqList tokens tokens' && canFail == canFail' && id == id' && Pattern.beqList rest rest'
  | _, _ => false

end

instance : BEq Pattern := ⟨fun p p' => Pattern.beqList [p] [p']⟩

instance : BEq Rule where
  beq r r' :=
    Pattern.beqList r.patterns r'.patterns && r.output == r'.output &&
      r.captures == r'.captures && r.id == r'.id && r.pos == r'.pos

instance : BEq Ruleset where
  beq r r' := r.name == r'.name && r.rules == r'.rules && r.id == r'.id && r.pos == r'.pos

instance : BEq Constant where
  beq c c' := c.name == c'.name && c.value == c'.value && c.pos == c'.pos

/-- Where the rulesets are follows from the rulesets and is not compared. -/
instance : BEq Grammar where
  beq g g' := g.rulesets == g'.rulesets && g.constants == g'.constants && g.maxId == g'.maxId

namespace Grammar

/-- The name of the ruleset that the input must match. -/
def entryName : String := "return"

/-- The ruleset of a name: the one at its place, or else the first one so called. -/
def ruleset? (g : Grammar) (name : String) : Option Ruleset :=
  match g.lookup.get? name with
  | some i => g.rulesets[i]?
  | none => g.rulesets.find? fun r => r.name == name

def names (g : Grammar) : List String := g.rulesets.map Ruleset.name

end Grammar

end PegFlow
