/-
# PegFlow.Program — grammars in the form in which they are run

An annotated grammar becomes one list of ops. Each token becomes a fragment that
has no effect when it fails: position and captures are as before. So a sequence
needs a note to come back to only when it has more than one token.

A capture of nothing but one plain reference records the output of the ruleset,
any other capture the matched text.
-/
import PegFlow.Grammar.Annotated
import PegFlow.Program.Op
import PegFlow.Template.Eval

namespace PegFlow

set_option autoImplicit false

/-- How often and in which way a token matches. -/
def Fragment.modified (required repeated ahead notAhead : Bool) (slots : List Nat)
    (body : Fragment) : Fragment :=
  let counted :=
    if repeated then body.loop (if required then 1 else 0)
    else if required then body
    else body.optional slots
  if ahead then counted.lookahead
  else if notAhead then counted.negativeLookahead
  else counted

/-- Whether the patterns of a capture are one plain reference. -/
def Pattern.isPlainRef : List Pattern → Bool
  | [⟨[⟨.ref _ _, required, repeated, ahead, notAhead, _, _⟩], _, _⟩] =>
    required && !repeated && !ahead && !notAhead
  | _ => false

mutual

/-- The fragment of a matcher; one without its annotation never passes. -/
def Matcher.fragment : Matcher → Fragment
  | .literal _ terminal => terminal.elim Fragment.fail Fragment.terminal
  | .charClass _ terminal => terminal.elim Fragment.fail Fragment.terminal
  | .any terminal => terminal.elim Fragment.fail Fragment.terminal
  | .ref _ target => target.elim Fragment.fail Fragment.call
  | .group patterns => Pattern.fragment patterns
  | .capture patterns slot =>
    (Pattern.fragment patterns).capture slot (Pattern.isPlainRef patterns)

def Token.fragment : List Token → Fragment
  | [] => Fragment.pass
  | ⟨matcher, required, repeated, ahead, notAhead, _, _⟩ :: rest =>
    (matcher.fragment.modified required repeated ahead notAhead matcher.slots).andThen
      (Token.fragment rest)

def Pattern.fragment : List Pattern → Fragment
  | [] => Fragment.fail
  | ⟨tokens, _, _⟩ :: rest =>
    (if tokens.length < 2 then Token.fragment tokens
      else (Token.fragment tokens).atomically).orElse (Pattern.fragment rest)

end

/-- The output of a rule, and for each of its slots whether it is repeated. -/
structure RuleOutput where
  layout : List Bool
  template : Option Template

/-- A grammar ready to run. `entries` are the ops to begin a ruleset with, `root`
is the one to begin everything with. -/
structure Program where
  ops : Array Op
  entries : Array Nat
  root : Nat
  rules : Array RuleOutput
  terminals : Array Terminal
  names : List String
  library : Library

namespace Program

/-- The place of the op that leaves a ruleset that matched. -/
def retAt : Nat := 0

/-- The place of the op that leaves a ruleset that did not match. -/
def retFailAt : Nat := 1

/-- The fragment of rules tried in order, the first one having number `index`. -/
def rulesFragment (index : Nat) : List Rule → Fragment
  | [] => Fragment.fail
  | r :: rest =>
    ((Pattern.fragment r.patterns).rule index retAt).orElse (rulesFragment (index + 1) rest)

/-- The ops of rulesets from place `base` on, and where each one begins. -/
def rulesetOps (base index : Nat) : List Ruleset → List Op × List Nat
  | [] => ([], [])
  | s :: rest =>
    let code := rulesFragment index s.rules base retAt retFailAt
    let (ops, entries) := rulesetOps (base + code.ops.length) (index + s.rules.length) rest
    (code.ops ++ ops, code.entry :: entries)

/-- The program of a grammar, with the constants and host functions of its
templates. -/
def ofGrammar (g : AnnotatedGrammar) (library : Library) : Program :=
  let (ops, entries) := rulesetOps 2 0 g.grammar.rulesets
  let acceptAt := 2 + ops.length
  let all := [Op.ret, Op.retFail] ++ ops ++
    [Op.accept, Op.reject, Op.call g.entry acceptAt (acceptAt + 1)]
  { ops := all.toArray
    entries := entries.toArray
    root := acceptAt + 2
    rules := (g.grammar.rulesets.flatMap fun s =>
      s.rules.map fun r => ⟨r.captures, r.output⟩).toArray
    terminals := g.terminals.toArray
    names := g.grammar.names
    library }

def size (p : Program) : Nat := p.ops.size

end Program

end PegFlow
