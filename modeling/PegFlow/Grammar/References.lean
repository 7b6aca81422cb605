/-
# PegFlow.Grammar.References — from names to rulesets

Names of rulesets are distinct, one of them is `return`, and every reference
names a ruleset. Starting from `return` every ruleset can be reached. What
breaks this first, in the order of these conditions, is reported.
-/
import PegFlow.Grammar.Error
import PegFlow.Grammar.Reachability
import PegFlow.Grammar.Traverse

namespace PegFlow.Grammar

set_option autoImplicit false

/-- The first ruleset whose name is in `seen` or that of an earlier one. -/
def firstRepeated? (seen : List String) : List Ruleset → Option Ruleset
  | [] => none
  | r :: rest => if seen.contains r.name then some r else firstRepeated? (r.name :: seen) rest

def indexOf? (g : Grammar) (name : String) : Option Nat :=
  g.rulesets.findIdx? fun r => r.name == name

def entry? (g : Grammar) : Except GrammarError Nat :=
  match g.rulesets.filter fun r => r.name == entryName with
  | _ :: second :: _ => .error (.multipleReturn second.pos)
  | _ =>
    match firstRepeated? [] g.rulesets with
    | some r => .error (.duplicateRuleset r.name r.pos)
    | none =>
      match g.indexOf? entryName with
      | some i => .ok i
      | none => .error .missingReturn

/-- The grammar with the places of its rulesets by name. -/
def indexed (g : Grammar) : Grammar := { g with lookup := Keyed.ofList g.names.zipIdx }

/-- A matcher with its target, if it is a reference. -/
def resolveLeaf (lookup : Keyed Nat) (pos : Option SourcePosition) :
    Matcher → Except GrammarError Matcher
  | .ref name _ =>
    match lookup.get? name with
    | some target => .ok (.ref name (some target))
    | none => .error (.unresolvedRule name pos)
  | matcher => .ok matcher

/-- The grammar with the target of every reference. -/
def resolve? (g : Grammar) : Except GrammarError Grammar := g.mapLeavesM (resolveLeaf g.lookup)

/-- For each ruleset the rulesets that it refers to. -/
def references (g : Grammar) : List (List Nat) :=
  g.rulesets.map fun s => s.rules.flatMap fun r => Pattern.targets r.patterns

/-- Refuse a ruleset that cannot be reached from `entry`. -/
def checkReachable (g : Grammar) (entry : Nat) : Except GrammarError Unit :=
  let seen := Graph.reachable g.references [entry]
  match g.rulesets.zipIdx.find? fun s => !seen.contains s.2 with
  | some (s, _) => .error (.unreachableRuleset s.name s.pos)
  | none => .ok ()

end PegFlow.Grammar
