/-
# PegFlow.Template.Format — templates in a format

A template is a record of its kind, its access chain and its position; a kind is a
choice marked by its tag. An empty chain and a missing position are left out.

Reading recurses on fuel. Each node is nested in a container of the text, so one more
than the format nests is enough.
-/
import PegFlow.Template
import PegFlow.Value.Format

namespace PegFlow

set_option autoImplicit false

namespace SourcePosition

def toDatum (p : SourcePosition) : Datum :=
  .record [("offset", .nat p.offset), ("line", .nat p.line), ("column", .nat p.column)]

def read? (F : Format) (p : F.Part) : Option SourcePosition := do
  match ← F.fields? ["offset", "line", "column"] p with
  | [offset, line, column] =>
    return {
      offset := ← F.required? F.nat? offset
      line := ← F.required? F.nat? line
      column := ← F.required? F.nat? column }
  | _ => none

end SourcePosition

namespace Access

def toDatum : Access → Datum
  | .property key => .variant "property" (.string key)
  | .index n => .variant "index" (.nat n)

def read? (F : Format) (p : F.Part) : Option Access := do
  match ← F.variant? ["property", "index"] p with
  | (0, content) => (F.string? content).map .property
  | (_, content) => (F.nat? content).map .index

end Access

namespace Meta

def names : List String := ["position", "length"]

def toDatum (what : Meta) : Datum := .unit what.name

def read? (F : Format) (p : F.Part) : Option Meta := do
  [Meta.position, Meta.length][← F.unit? names p]?

end Meta

namespace Template

def kindTags : List String :=
  ["literal", "back_ref", "var_ref", "meta_ref", "spread", "object", "array", "call", "pivot"]

def memberTags : List String := ["pair", "spread"]

mutual

/-- A template as it is written. -/
def toDatum : Template → Datum
  | ⟨kind, access, pos⟩ =>
    .record <|
      [("kind", kindToDatum kind)] ++
      (if access.isEmpty then [] else [("access", .array (access.map Access.toDatum))]) ++
      Datum.fieldIfSome "pos" SourcePosition.toDatum pos

def kindToDatum : TemplateKind → Datum
  | .literal value => .tagged "type" "literal" [("value", value.toDatum)]
  | .backRef index collapse =>
    .tagged "type" "back_ref" [("index", .nat index), ("collapse", .bool collapse)]
  | .constant name => .tagged "type" "var_ref" [("name", .string name)]
  | .location what => .tagged "type" "meta_ref" [("meta", what.toDatum)]
  | .spread inner => .tagged "type" "spread" [("inner", inner.toDatum)]
  | .object members => .tagged "type" "object" [("members", .array (membersToDatum members))]
  | .array items => .tagged "type" "array" [("items", .array (itemsToDatum items))]
  | .call name args =>
    .tagged "type" "call" [("name", .string name), ("args", .array (itemsToDatum args))]
  | .pivot inner => .tagged "type" "pivot" [("inner", inner.toDatum)]

def itemsToDatum : List Template → List Datum
  | [] => []
  | t :: rest => t.toDatum :: itemsToDatum rest

def membersToDatum : List Member → List Datum
  | [] => []
  | .pair key value :: rest =>
    .tagged "type" "pair" [("key", .string key), ("value", value.toDatum)] :: membersToDatum rest
  | .merge value :: rest =>
    .tagged "type" "spread" [("value", value.toDatum)] :: membersToDatum rest

end

variable (F : Format)

mutual

/-- The template in a part. -/
def read? : Nat → F.Part → Option Template
  | 0, _ => none
  | fuel + 1, p => do
    match ← F.fields? ["kind", "access", "pos"] p with
    | [kind, access, pos] =>
      return {
        kind := ← F.required? (readKind? fuel) kind
        access := ← F.orElse? [] (F.list? (Access.read? F)) access
        pos := ← F.optional? (SourcePosition.read? F) pos }
    | _ => none
termination_by structural fuel => fuel

def readKind? : Nat → F.Part → Option TemplateKind
  | 0, _ => none
  | fuel + 1, p => do
    let (tag, body) ← F.tagged? "type" kindTags p
    match tag with
    | 0 =>
      match ← F.fields? ["value"] body with
      | [value] => return .literal (← F.required? (Value.read? F fuel) value)
      | _ => none
    | 1 =>
      match ← F.fields? ["index", "collapse"] body with
      | [index, collapse] =>
        return .backRef (← F.required? F.nat? index) (← F.orElse? false F.bool? collapse)
      | _ => none
    | 2 =>
      match ← F.fields? ["name"] body with
      | [name] => return .constant (← F.required? F.string? name)
      | _ => none
    | 3 =>
      match ← F.fields? ["meta"] body with
      | [what] => return .location (← F.required? (Meta.read? F) what)
      | _ => none
    | 4 =>
      match ← F.fields? ["inner"] body with
      | [inner] => return .spread (← F.required? (read? fuel) inner)
      | _ => none
    | 5 =>
      match ← F.fields? ["members"] body with
      | [members] => return .object (← F.required? (F.list? (readMember? fuel)) members)
      | _ => none
    | 6 =>
      match ← F.fields? ["items"] body with
      | [items] => return .array (← F.required? (F.list? (read? fuel)) items)
      | _ => none
    | 7 =>
      match ← F.fields? ["name", "args"] body with
      | [name, args] =>
        return .call (← F.required? F.string? name) (← F.orElse? [] (F.list? (read? fuel)) args)
      | _ => none
    | _ =>
      match ← F.fields? ["inner"] body with
      | [inner] => return .pivot (← F.required? (read? fuel) inner)
      | _ => none
termination_by structural fuel => fuel

def readMember? : Nat → F.Part → Option Member
  | 0, _ => none
  | fuel + 1, p => do
    let (tag, body) ← F.tagged? "type" memberTags p
    match tag with
    | 0 =>
      match ← F.fields? ["key", "value"] body with
      | [key, value] =>
        return .pair (← F.required? F.string? key) (← F.required? (read? fuel) value)
      | _ => none
    | _ =>
      match ← F.fields? ["value"] body with
      | [value] => return .merge (← F.required? (read? fuel) value)
      | _ => none
termination_by structural fuel => fuel

end

end Template

end PegFlow
