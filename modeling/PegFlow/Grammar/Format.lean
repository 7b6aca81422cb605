/-
# PegFlow.Grammar.Format — grammars in a format

Each part of a grammar is a record, and a matcher a choice marked by its tag.
Everything is written, annotations included, except what is missing: a position, an
output, the target of a reference or the id of a terminal. The places of rulesets by
name are worked out from the rest. In reading, annotations and modifiers may be left
out.

`Grammar.write?` and `Grammar.read?` are the two directions.
-/
import PegFlow.Grammar
import PegFlow.Template.Format

namespace PegFlow

set_option autoImplicit false

namespace CharRange

def toDatum (r : CharRange) : Datum := .record [("from", .char r.first), ("to", .char r.last)]

def read? (F : Format) (p : F.Part) : Option CharRange := do
  match ← F.fields? ["from", "to"] p with
  | [first, last] =>
    return { first := ← F.required? F.char? first, last := ← F.required? F.char? last }
  | _ => none

end CharRange

mutual

/-- A matcher as it is written. -/
def Matcher.toDatum : Matcher → Datum
  | .capture patterns slot =>
    .tagged "type" "capture" [("patterns", .array (Pattern.listToDatum patterns)), ("slot", .nat slot)]
  | .group patterns => .tagged "type" "group" [("patterns", .array (Pattern.listToDatum patterns))]
  | .ref name target =>
    .tagged "type" "rule_ref" (("name", .string name) :: Datum.fieldIfSome "target" .nat target)
  | .literal text terminal =>
    .tagged "type" "string" (("value", .string text) :: Datum.fieldIfSome "terminal" .nat terminal)
  | .charClass spec terminal =>
    .tagged "type" "class" <|
      [("ranges", .array (spec.ranges.map CharRange.toDatum)), ("negated", .bool spec.negated)] ++
      Datum.fieldIfSome "terminal" .nat terminal
  | .any terminal => .tagged "type" "any" (Datum.fieldIfSome "terminal" .nat terminal)

def Token.listToDatum : List Token → List Datum
  | [] => []
  | ⟨matcher, required, repeated, ahead, notAhead, id, pos⟩ :: rest =>
    .record
      ([("descriptor", matcher.toDatum), ("required", .bool required), ("repeat", .bool repeated),
        ("and", .bool ahead), ("not", .bool notAhead), ("id", .nat id)] ++
        Datum.fieldIfSome "pos" SourcePosition.toDatum pos) ::
      Token.listToDatum rest

def Pattern.listToDatum : List Pattern → List Datum
  | [] => []
  | ⟨tokens, canFail, id⟩ :: rest =>
    .record [("tokens", .array (Token.listToDatum tokens)), ("can_fail", .bool canFail),
      ("id", .nat id)] :: Pattern.listToDatum rest

end

def Rule.toDatum (r : Rule) : Datum :=
  .record <|
    [("patterns", .array (Pattern.listToDatum r.patterns))] ++
    Datum.fieldIfSome "output" Template.toDatum r.output ++
    [("captures", .array (r.captures.map .bool)), ("id", .nat r.id)] ++
    Datum.fieldIfSome "pos" SourcePosition.toDatum r.pos

def Ruleset.toDatum (r : Ruleset) : Datum :=
  .record <|
    [("name", .string r.name), ("rules", .array (r.rules.map Rule.toDatum)), ("id", .nat r.id)] ++
    Datum.fieldIfSome "pos" SourcePosition.toDatum r.pos

def Constant.toDatum (c : Constant) : Datum :=
  .record <|
    [("name", .string c.name), ("value", c.value.toDatum)] ++
    Datum.fieldIfSome "pos" SourcePosition.toDatum c.pos

def Matcher.tags : List String := ["capture", "group", "rule_ref", "string", "class", "any"]

section

variable (F : Format)

mutual

/-- The matcher in a part. -/
def Matcher.read? : Nat → F.Part → Option Matcher
  | 0, _ => none
  | fuel + 1, p => do
    let (tag, body) ← F.tagged? "type" Matcher.tags p
    match tag with
    | 0 =>
      match ← F.fields? ["patterns", "slot"] body with
      | [patterns, slot] =>
        return .capture (← F.required? (F.list? (Pattern.read? fuel)) patterns)
          (← F.orElse? 0 F.nat? slot)
      | _ => none
    | 1 =>
      match ← F.fields? ["patterns"] body with
      | [patterns] => return .group (← F.required? (F.list? (Pattern.read? fuel)) patterns)
      | _ => none
    | 2 =>
      match ← F.fields? ["name", "target"] body with
      | [name, target] =>
        return .ref (← F.required? F.string? name) (← F.optional? F.nat? target)
      | _ => none
    | 3 =>
      match ← F.fields? ["value", "terminal"] body with
      | [text, terminal] =>
        return .literal (← F.required? F.string? text) (← F.optional? F.nat? terminal)
      | _ => none
    | 4 =>
      match ← F.fields? ["ranges", "negated", "terminal"] body with
      | [ranges, negated, terminal] =>
        return .charClass
          { ranges := ← F.required? (F.list? (CharRange.read? F)) ranges
            negated := ← F.orElse? false F.bool? negated }
          (← F.optional? F.nat? terminal)
      | _ => none
    | _ =>
      match ← F.fields? ["terminal"] body with
      | [terminal] => return .any (← F.optional? F.nat? terminal)
      | _ => none
termination_by structural fuel => fuel

def Token.read? : Nat → F.Part → Option Token
  | 0, _ => none
  | fuel + 1, p => do
    match ← F.fields? ["descriptor", "required", "repeat", "and", "not", "id", "pos"] p with
    | [matcher, required, repeated, ahead, notAhead, id, pos] =>
      return {
        matcher := ← F.required? (Matcher.read? fuel) matcher
        required := ← F.orElse? true F.bool? required
        repeated := ← F.orElse? false F.bool? repeated
        ahead := ← F.orElse? false F.bool? ahead
        notAhead := ← F.orElse? false F.bool? notAhead
        id := ← F.orElse? 0 F.nat? id
        pos := ← F.optional? (SourcePosition.read? F) pos }
    | _ => none
termination_by structural fuel => fuel

def Pattern.read? : Nat → F.Part → Option Pattern
  | 0, _ => none
  | fuel + 1, p => do
    match ← F.fields? ["tokens", "can_fail", "id"] p with
    | [tokens, canFail, id] =>
      return {
        tokens := ← F.required? (F.list? (Token.read? fuel)) tokens
        canFail := ← F.orElse? true F.bool? canFail
        id := ← F.orElse? 0 F.nat? id }
    | _ => none
termination_by structural fuel => fuel

end

def Rule.read? (p : F.Part) : Option Rule := do
  match ← F.fields? ["patterns", "output", "captures", "id", "pos"] p with
  | [patterns, output, captures, id, pos] =>
    return {
      patterns := ← F.required? (F.list? (Pattern.read? F (F.maxNesting + 1))) patterns
      output := ← F.optional? (Template.read? F (F.maxNesting + 1)) output
      captures := ← F.orElse? [] (F.list? F.bool?) captures
      id := ← F.orElse? 0 F.nat? id
      pos := ← F.optional? (SourcePosition.read? F) pos }
  | _ => none

def Ruleset.read? (p : F.Part) : Option Ruleset := do
  match ← F.fields? ["name", "rules", "id", "pos"] p with
  | [name, rules, id, pos] =>
    return {
      name := ← F.required? F.string? name
      rules := ← F.required? (F.list? (Rule.read? F)) rules
      id := ← F.orElse? 0 F.nat? id
      pos := ← F.optional? (SourcePosition.read? F) pos }
  | _ => none

def Constant.read? (p : F.Part) : Option Constant := do
  match ← F.fields? ["name", "value", "pos"] p with
  | [name, value, pos] =>
    return {
      name := ← F.required? F.string? name
      value := ← F.required? (Template.read? F (F.maxNesting + 1)) value
      pos := ← F.optional? (SourcePosition.read? F) pos }
  | _ => none

end

namespace Grammar

/-- A grammar as it is written. -/
def toDatum (g : Grammar) : Datum :=
  .record [("rulesets", .array (g.rulesets.map Ruleset.toDatum)),
    ("vars", .array (g.constants.map Constant.toDatum)), ("max_id", .nat g.maxId)]

/-- The grammar in a part. -/
def readPart? (F : Format) (p : F.Part) : Option Grammar := do
  match ← F.fields? ["rulesets", "vars", "max_id"] p with
  | [rulesets, constants, maxId] =>
    return {
      rulesets := ← F.required? (F.list? (Ruleset.read? F)) rulesets
      constants := ← F.orElse? [] (F.list? (Constant.read? F)) constants
      maxId := ← F.orElse? 0 F.nat? maxId }
  | _ => none

/-- The text of a grammar. -/
def write? (F : Format) (g : Grammar) : Option String := F.toText? g.toDatum

def read? (F : Format) (text : String) : Option Grammar := do readPart? F (← F.ofText? text)

end Grammar

end PegFlow
