/-
# PegFlow.Grammar.Build — writing grammars down

Tokens are made from what they match and changed by their modifiers. A later
modifier of the same sort wins: `opt`, `star` and `plus` set how often a token
matches, `lookahead` and `negativeLookahead` what it tests.
-/
import PegFlow.Grammar
import PegFlow.CharClass.Notation

namespace PegFlow

set_option autoImplicit false

def Pattern.ofTokens (tokens : List Token) : Pattern := ⟨tokens, true, 0⟩

namespace Token

/-- A matcher that must match once. -/
def ofMatcher (matcher : Matcher) : Token := ⟨matcher, true, false, false, false, 0, none⟩

def literal (text : String) : Token := ofMatcher (.literal text none)

/-- A character of a class in its notation. -/
def charClass (text : String) : Token := ofMatcher (.charClass (ClassSpec.ofText text) none)

def any : Token := ofMatcher (.any none)

def ref (name : String) : Token := ofMatcher (.ref name none)

def capture (patterns : List Pattern) : Token := ofMatcher (.capture patterns 0)

/-- The output of a ruleset, recorded. -/
def captureRef (name : String) : Token := capture [Pattern.ofTokens [ref name]]

def group (patterns : List Pattern) : Token := ofMatcher (.group patterns)

def opt (t : Token) : Token := { t with required := false, repeated := false }

def star (t : Token) : Token := { t with required := false, repeated := true }

def plus (t : Token) : Token := { t with required := true, repeated := true }

def lookahead (t : Token) : Token := { t with ahead := true, notAhead := false }

def negativeLookahead (t : Token) : Token := { t with ahead := false, notAhead := true }

def writtenAt (t : Token) (pos : SourcePosition) : Token := { t with pos := some pos }

end Token

/-- A rule whose output a template gives, or the matched text. -/
def Rule.ofPatterns (patterns : List Pattern) (output : Option Template) : Rule :=
  { patterns, output }

namespace Grammar

def empty : Grammar := { rulesets := [] }

def addConstant (g : Grammar) (name : String) (value : Template) : Grammar :=
  { g with constants := g.constants ++ [{ name, value }] }

def addRuleset (g : Grammar) (name : String) (rules : List Rule) : Grammar :=
  { g with rulesets := g.rulesets ++ [{ name, rules }] }

end Grammar

end PegFlow
