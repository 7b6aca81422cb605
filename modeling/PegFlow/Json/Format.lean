/-
# PegFlow.Json.Format — JSON as a format

A record is an object, and a choice with a tag an object with the tag in front. A
choice without one is its name, or an object with its name for the only key. A part
is a document and whether an enclosing choice has already read all of it.
-/
import PegFlow.Format
import PegFlow.Json.Printer
import PegFlow.Json.Reader
import PegFlow.Json.Record
import PegFlow.Value.Json

namespace PegFlow

set_option autoImplicit false

mutual

/-- The document of a datum. -/
def Datum.toJson : Datum → Json
  | .null => .null
  | .bool b => .bool b
  | .int n => .int n.toInt
  | .nat n => .int n
  | .float x => if x.isFinite then .float x else .null
  | .char c => .string (String.singleton c)
  | .string s => .string s
  | .array items => .array (Datum.itemsToJson items)
  | .map members => .object (Datum.membersToJson members)
  | .record fields => .object (Datum.membersToJson fields)
  | .tagged key tag fields => .object ((key, .string tag) :: Datum.membersToJson fields)
  | .unit name => .string name
  | .variant name content => .object [(name, content.toJson)]

def Datum.itemsToJson : List Datum → List Json
  | [] => []
  | d :: rest => d.toJson :: Datum.itemsToJson rest

def Datum.membersToJson : List (String × Datum) → List (String × Json)
  | [] => []
  | (k, d) :: rest => (k, d.toJson) :: Datum.membersToJson rest

end

namespace Json

/-- The format of JSON texts. -/
@[reducible]
def format : Format where
  Part := Bool × Json
  maxNesting := maxNesting
  toText? d := some d.toJson.toText
  ofText? text := (ofText? text).map (false, ·)
  isNull p := p.2.isNull
  bool? p := p.2.bool?
  int? p := p.2.int?
  nat? p := p.2.nat?
  float? p := p.2.float?
  char? p := p.2.char?
  string? p := p.2.string?
  items? p := p.2.items?.map (List.map (p.1, ·))
  members? p := p.2.members?.map (List.map fun m => (m.1, p.1, m.2))
  fields? names p := (p.2.fields? names).map (List.map (Option.map (p.1, ·)))
  tagged? key tags p := do
    let (tag, body) ← p.2.tagged? p.1 key
    return (← tagIndex? p.1 tags tag, true, body)
  unit? names p := p.2.named? names
  variant? names p := (p.2.variant? names).map fun v => (v.1, p.1, v.2)
  required? read field := field.bind read
  orElse? default read field := field.elim (some default) read
  optional? read field :=
    match field with
    | none => some none
    | some p => if p.2.isNull then some none else (read p).map some

end Json

end PegFlow
