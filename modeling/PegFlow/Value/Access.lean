/-
# PegFlow.Value.Access — reaching into a value

An access chain is a list of steps: a property of an object or an item of an
array, both taken from the value that the step before it reached. Indexing a
text reaches its characters.
-/
import PegFlow.Value

namespace PegFlow

set_option autoImplicit false

/-- One step of an access chain. -/
inductive Access where
  | property (key : String)
  | index (n : Nat)
deriving DecidableEq, Repr

/-- Why a step reaches nothing. -/
inductive AccessError where
  | notAnObject (key : String) (found : Value.Kind)
  | missingProperty (key : String)
  | notIndexable (index : Nat) (found : Value.Kind)
  | indexOutOfRange (index length : Nat)
deriving DecidableEq, Repr

def AccessError.message : AccessError → String
  | .notAnObject key found => s!"cannot read property `{key}` of a {found.name} value"
  | .missingProperty key => s!"property `{key}` does not exist"
  | .notIndexable index found => s!"cannot index a {found.name} value with [{index}]"
  | .indexOutOfRange index length => s!"index {index} out of range for length {length}"

namespace Access

/-- The value that one step reaches. -/
def apply (step : Access) (v : Value) : Except AccessError Value :=
  match step, v with
  | .property key, .object members =>
    match Keyed.get? key members with
    | some v => .ok v
    | none => .error (.missingProperty key)
  | .property key, v => .error (.notAnObject key v.kind)
  | .index n, .array items =>
    match items[n]? with
    | some v => .ok v
    | none => .error (.indexOutOfRange n items.length)
  | .index n, .string s =>
    match s.toList[n]? with
    | some c => .ok (Value.ofChar c)
    | none => .error (.indexOutOfRange n s.toList.length)
  | .index n, v => .error (.notIndexable n v.kind)

/-- The value that a chain of steps reaches, from left to right. -/
def follow (steps : List Access) (v : Value) : Except AccessError Value :=
  steps.foldlM (fun v step => step.apply v) v

end Access

end PegFlow
