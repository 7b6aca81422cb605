/-
# PegFlow.Grammar.Error — why a grammar is refused

Every error has a stable code and a wording, and says where in the grammar it
was found when the grammar carries positions.
-/
import PegFlow.Text.Position
import PegFlow.Text.Quoted

namespace PegFlow

set_option autoImplicit false

/-- Why a grammar is refused. -/
inductive GrammarError where
  | duplicateRuleset (name : String) (pos : Option SourcePosition)
  | duplicateConstant (name : String) (pos : Option SourcePosition)
  | multipleReturn (pos : Option SourcePosition)
  | missingReturn
  /-- A reference to no ruleset. -/
  | unresolvedRule (name : String) (pos : Option SourcePosition)
  /-- A reference to a constant that is not there, or only later. -/
  | unresolvedConstant (name : String) (pos : Option SourcePosition)
  /-- A ruleset that nothing refers to, starting from `return`. -/
  | unreachableRuleset (name : String) (pos : Option SourcePosition)
  /-- A reference to a capture slot that the rule does not have. -/
  | backRefOutOfRange (index arity : Nat) (pos : Option SourcePosition)
  /-- Alternatives with different captures. -/
  | captureMismatch (ruleset : String) (expected found : Nat) (pos : Option SourcePosition)
  /-- A spread where none may stand, or of a value without parts. -/
  | invalidSpread (reason : String) (pos : Option SourcePosition)
  /-- An access that can reach nothing. -/
  | invalidAccess (reason : String) (pos : Option SourcePosition)
  | unknownCallback (name : String) (pos : Option SourcePosition)
  /-- A range whose ends are in the wrong order. -/
  | invalidClass (first last : Char) (pos : Option SourcePosition)
  /-- A constant without a value. -/
  | invalidConstant (name reason : String)
deriving DecidableEq, Repr

namespace GrammarError

/-- The stable number of an error. -/
def code : GrammarError → Nat
  | .duplicateRuleset .. => 101
  | .multipleReturn _ => 102
  | .missingReturn => 103
  | .unresolvedRule .. => 104
  | .unresolvedConstant .. => 105
  | .backRefOutOfRange .. => 106
  | .captureMismatch .. => 107
  | .invalidSpread .. => 108
  | .invalidAccess .. => 109
  | .unknownCallback .. => 110
  | .unreachableRuleset .. => 111
  | .duplicateConstant .. => 112
  | .invalidConstant .. => 113
  | .invalidClass .. => 114

def pos? : GrammarError → Option SourcePosition
  | .duplicateRuleset _ pos => pos
  | .multipleReturn pos => pos
  | .missingReturn => none
  | .unresolvedRule _ pos => pos
  | .unresolvedConstant _ pos => pos
  | .backRefOutOfRange _ _ pos => pos
  | .captureMismatch _ _ _ pos => pos
  | .invalidSpread _ pos => pos
  | .invalidAccess _ pos => pos
  | .unknownCallback _ pos => pos
  | .unreachableRuleset _ pos => pos
  | .duplicateConstant _ pos => pos
  | .invalidConstant .. => none
  | .invalidClass _ _ pos => pos

def reason : GrammarError → String
  | .duplicateRuleset name _ => s!"duplicate ruleset `{name}`"
  | .duplicateConstant name _ => s!"duplicate constant `{name}`"
  | .multipleReturn _ => "more than one `return` ruleset"
  | .missingReturn => "grammar has no `return` ruleset"
  | .unresolvedRule name _ => s!"reference to undefined ruleset `{name}`"
  | .unresolvedConstant name _ => s!"reference to undefined constant `{name}`"
  | .unreachableRuleset name _ => s!"ruleset `{name}` is unreachable from `return`"
  | .backRefOutOfRange index arity _ =>
    s!"backreference ${index} out of range: rule has {arity} capture(s)"
  | .captureMismatch ruleset expected found _ =>
    s!"capture mismatch in `{ruleset}`: expected {expected} capture(s) with identical arity, found {found}"
  | .invalidSpread reason _ => s!"invalid spread: {reason}"
  | .invalidAccess reason _ => s!"invalid access: {reason}"
  | .unknownCallback name _ => s!"unknown callback `{name}`"
  | .invalidClass first last _ =>
    "invalid character class range " ++ Text.quotedChar first ++ "-" ++ Text.quotedChar last
  | .invalidConstant name reason => s!"invalid constant `{name}`: {reason}"

def message (e : GrammarError) : String :=
  match e.pos? with
  | some pos => e.reason ++ " at " ++ pos.describe
  | none => e.reason

end GrammarError

end PegFlow
