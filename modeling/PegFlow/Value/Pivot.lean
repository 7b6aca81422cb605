/-
# PegFlow.Value.Pivot — rows and columns exchanged

A table has three forms: an array of arrays, an array of objects, whose keys
name the columns, and an object of arrays, whose keys name the rows. Pivoting
exchanges rows and columns; the first form stays, the other two change into
each other. Missing cells are null. An array without rows counts as the first
form.
-/
import PegFlow.Fault

namespace PegFlow.Value

set_option autoImplicit false

def isArray : Value → Bool
  | .array _ => true
  | _ => false

def isObject : Value → Bool
  | .object _ => true
  | _ => false

/-- The items of an array, and none of another value. -/
def items (v : Value) : List Value := v.asArray?.getD []

/-- The members of an object, and none of another value. -/
def members (v : Value) : Keyed Value := v.asObject?.getD []

/-- The length of the longest array. -/
def width (rows : List Value) : Nat := (rows.map fun r => r.items.length).foldl max 0

/-- Column `j` of an array of arrays. -/
def column (rows : List Value) (j : Nat) : Value :=
  .array (rows.map fun r => (r.item? j).getD .null)

/-- The keys of all the objects, in order, each once. -/
def allKeys (rows : List Value) : List String :=
  Keyed.keys (Keyed.ofList (rows.flatMap fun r => r.members.map fun m => (m.1, ())))

/-- The member `key` of each object. -/
def columnOf (rows : List Value) (key : String) : Value :=
  .array (rows.map fun r => (r.get? key).getD .null)

/-- Row `i` of an object of arrays. -/
def rowOf (columns : Keyed Value) (i : Nat) : Value :=
  .object (columns.map fun c => (c.1, (c.2.item? i).getD .null))

/-- Exchange rows and columns. -/
def pivot : Value → Except Fault Value
  | .array rows =>
    if rows.all isArray then .ok (.array ((List.range (width rows)).map (column rows)))
    else if rows.all isObject then
      .ok (.object ((allKeys rows).map fun key => (key, columnOf rows key)))
    else
      .error (.invalidPivot ((rows.find? fun r => !r.isArray && !r.isObject).map kind))
  | .object columns =>
    match columns.find? fun c => !c.2.isArray with
    | some c => .error (.invalidPivot (some c.2.kind))
    | none =>
      .ok (.array ((List.range (width (columns.map Prod.snd))).map (rowOf columns)))
  | v => .error (.invalidPivot (some v.kind))

end PegFlow.Value
