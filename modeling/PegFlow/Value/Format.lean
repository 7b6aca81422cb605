/-
# PegFlow.Value.Format — values in a format

A value is written without its kind. In reading, the kinds are tried one after the
other, integers before floats.
-/
import PegFlow.Format
import PegFlow.Value

namespace PegFlow.Value

set_option autoImplicit false

mutual

/-- A value as it is written. -/
def toDatum : Value → Datum
  | .null => .null
  | .bool b => .bool b
  | .int n => .int n
  | .float x => .float x
  | .string s => .string s
  | .array items => .array (itemsToDatum items)
  | .object members => .map (membersToDatum members)

def itemsToDatum : List Value → List Datum
  | [] => []
  | v :: rest => v.toDatum :: itemsToDatum rest

def membersToDatum : List (String × Value) → List (String × Datum)
  | [] => []
  | (k, v) :: rest => (k, v.toDatum) :: membersToDatum rest

end

/-- The value in a part. -/
def read? (F : Format) : Nat → F.Part → Option Value
  | 0, _ => none
  | fuel + 1, p =>
    (if F.isNull p then some .null else none) <|>
    (F.bool? p).map .bool <|>
    (F.int? p).map .int <|>
    (F.float? p).map .float <|>
    (F.string? p).map .string <|>
    (F.list? (read? F fuel) p).map .array <|>
    ((F.members? p).bind (List.mapM fun m => (read? F fuel m.2).map fun v => (m.1, v))).map ofMembers

end PegFlow.Value
