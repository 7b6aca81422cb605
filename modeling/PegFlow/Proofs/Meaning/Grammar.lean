/-
# PegFlow.Proofs.Meaning.Grammar -- what a grammar means

The meaning of an annotated grammar follows its tree: each matcher, sequence and choice
is a `Parse` of the text, given the meaning of the calls in it (`Matcher.parse`,
`Token.parse`, `Pattern.parse`). A rule adds its output (`Rule.parse`), and a call is
the choice between the rules of its ruleset (`AnnotatedGrammar.call`). Calls nest as
deep as there are pairs of a ruleset and an offset, since a call that is under way is
not entered again.
-/
import PegFlow.Grammar.Annotated
import PegFlow.Machine.Step
import PegFlow.Proofs.Meaning.Parse

namespace PegFlow

set_option autoImplicit false

/-- The place of the ruleset when the patterns are one plain reference. -/
def Pattern.plainTarget? : List Pattern → Option Nat
  | [⟨[⟨.ref _ target, true, false, false, false, _, _⟩], _, _⟩] => target
  | _ => none

mutual

/-- The meaning of a matcher; a class with a range in the wrong order and a reference
that was not resolved never match. -/
def Matcher.parse (T : String) (call : Nat → Parse Value) : Matcher → Parse (List Capture)
  | .literal text _ => Parse.terminal T (.literal text)
  | .charClass spec _ =>
    match Terminal.ofClass? spec with
    | .ok t => Parse.terminal T t
    | .error _ => Parse.fail
  | .any _ => Parse.terminal T .any
  | .ref _ target => target.elim Parse.fail fun ruleset => (call ruleset).silent
  | .group patterns => Pattern.parse T call patterns
  | .capture patterns slot =>
    match Pattern.plainTarget? patterns with
    | some ruleset => (call ruleset).recorded slot
    | none => (Pattern.parse T call patterns).captured T slot

/-- The meaning of tokens one after the other. -/
def Token.parse (T : String) (call : Nat → Parse Value) : List Token → Parse (List Capture)
  | [] => Parse.pass
  | ⟨matcher, required, repeated, ahead, notAhead, _, _⟩ :: rest =>
    ((matcher.parse T call).modified T required repeated ahead notAhead matcher.slots).andThen
      (Token.parse T call rest)

/-- The meaning of patterns tried in order. -/
def Pattern.parse (T : String) (call : Nat → Parse Value) : List Pattern → Parse (List Capture)
  | [] => Parse.fail
  | ⟨tokens, _, _⟩ :: rest => (Token.parse T call tokens).orElse (Pattern.parse T call rest)

end

namespace Rule

/-- The output of a rule that matched between two offsets. -/
def valueOf (library : Library) (T : String) (r : Rule) (start stop : Nat)
    (captures : List Capture) : Except Fault Value :=
  State.ruleOutput
    { library, layout := r.captures, slots := Capture.assemble r.captures captures
      start, stop, input := Buffer.complete T }
    r.output

/-- The meaning of a rule: its patterns match and its template gives the value. -/
def parse (library : Library) (T : String) (call : Nat → Parse Value) (r : Rule) : Parse Value :=
  fun calls pos =>
    (Pattern.parse T call r.patterns calls pos).either
      (fun stop captures =>
        match r.valueOf library T pos stop captures with
        | .ok v => .pass stop v []
        | .error f => .error f)
      (.fail [])

/-- The meaning of rules tried in order. -/
def parseList (library : Library) (T : String) (call : Nat → Parse Value) :
    List Rule → Parse Value
  | [] => Parse.fail
  | r :: rest => (r.parse library T call).orElse (parseList library T call rest)

end Rule

namespace Grammar

/-- The rules of the ruleset at a place. -/
def rulesAt (g : Grammar) (ruleset : Nat) : List Rule :=
  (g.rulesets[ruleset]?.map Ruleset.rules).getD []

/-- The meaning of a call when calls may be `depth` deep: at depth zero a call that is not
under way is too deep. -/
def call (g : Grammar) (library : Library) (T : String) : (depth : Nat) → Nat → Parse Value
  | 0, ruleset => Parse.call T ruleset fun _ _ => .deep
  | depth + 1, ruleset =>
    Parse.call T ruleset
      (Rule.parseList library T (g.call library T depth) (g.rulesAt ruleset))

end Grammar

/-- The meaning of a grammar: how a match of the whole grammar with the beginning of a
text turns out. -/
def AnnotatedGrammar.meaning (g : AnnotatedGrammar) (library : Library) (T : String) :
    Outcome Value :=
  g.grammar.call library T (g.grammar.rulesets.length * (T.utf8ByteSize + 1)) g.entry [] 0

end PegFlow
