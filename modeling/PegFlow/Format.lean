/-
# PegFlow.Format — what is written to a text, and how it is read

Grammars are kept as texts of a format that is none of this library's. What is to be
written is handed to it as a `Datum`, made of records, choices, lists and maps, and
what it finds in a text it hands out as a part, to be asked for what should be there.
How records, choices and missing fields look in a text is the format's affair
(`Format`); what is relied on is in `PegFlow.Proofs.Format.Lawful`.
-/
namespace PegFlow

set_option autoImplicit false

/-- What is handed to a format. A record names its fields, but for those that are left
out. A choice between records is `tagged` by the member `key`; other choices have only
a name (`unit`), or a name and a content (`variant`). -/
inductive Datum where
  | null
  | bool (b : Bool)
  | int (n : Int64)
  | nat (n : Nat)
  | float (x : Float)
  | char (c : Char)
  | string (s : String)
  | array (items : List Datum)
  | map (members : List (String × Datum))
  | record (fields : List (String × Datum))
  | tagged (key tag : String) (fields : List (String × Datum))
  | unit (name : String)
  | variant (name : String) (content : Datum)
deriving Inhabited

/-- A field for a value that may be missing, or none. -/
def Datum.fieldIfSome {α : Type} (name : String) (write : α → Datum) :
    Option α → List (String × Datum)
  | none => []
  | some a => [(name, write a)]

/-- A format of texts. `fields?` gives what is there for each of the names of a record,
`tagged?` the position of a tag and the record that it marks; `required?`, `orElse?`
and `optional?` read a field that must be given, one with a default and one that may
be missing or null. -/
structure Format where
  Part : Type
  maxNesting : Nat
  toText? : Datum → Option String
  ofText? : String → Option Part
  isNull : Part → Bool
  bool? : Part → Option Bool
  int? : Part → Option Int64
  nat? : Part → Option Nat
  float? : Part → Option Float
  char? : Part → Option Char
  string? : Part → Option String
  items? : Part → Option (List Part)
  members? : Part → Option (List (String × Part))
  fields? : List String → Part → Option (List (Option Part))
  tagged? : String → List String → Part → Option (Nat × Part)
  unit? : List String → Part → Option Nat
  variant? : List String → Part → Option (Nat × Part)
  required? : {α : Type} → (Part → Option α) → Option Part → Option α
  orElse? : {α : Type} → α → (Part → Option α) → Option Part → Option α
  optional? : {α : Type} → (Part → Option α) → Option Part → Option (Option α)

namespace Format

/-- A list whose items all read. -/
def list? (F : Format) {α : Type} (read : F.Part → Option α) (p : F.Part) : Option (List α) := do
  (← F.items? p).mapM read

end Format

end PegFlow
