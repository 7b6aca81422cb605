/-
# PegFlow.Value — structured output values

A `Value` is what an output template builds from the captures of a match; it is
also what literals in templates denote and what callbacks take and give back.
Integers have 64 bits. The members of an object are kept sorted by key, each
key once (`Value.IsMap`); every function of this library that builds an object
keeps it so.
-/
import PegFlow.Keyed

namespace PegFlow

set_option autoImplicit false

/-- A structured output value. -/
inductive Value where
  | null
  | bool (b : Bool)
  | int (n : Int64)
  | float (x : Float)
  | string (s : String)
  | array (items : List Value)
  | object (members : List (String × Value))
deriving Inhabited

namespace Value

/-- What sort of value it is. -/
inductive Kind where
  | null
  | boolean
  | integer
  | float
  | string
  | array
  | object
deriving DecidableEq, Repr

def Kind.name : Kind → String
  | .null => "null"
  | .boolean => "boolean"
  | .integer => "integer"
  | .float => "float"
  | .string => "string"
  | .array => "array"
  | .object => "object"

def kind : Value → Kind
  | .null => .null
  | .bool _ => .boolean
  | .int _ => .integer
  | .float _ => .float
  | .string _ => .string
  | .array _ => .array
  | .object _ => .object

/-- The object with these members; the last one of a key counts. -/
def ofMembers (members : List (String × Value)) : Value := .object (Keyed.ofList members)

def ofChar (c : Char) : Value := .string (String.singleton c)

/-- An offset or length as a value. -/
def ofNat (n : Nat) : Value := .int (Int64.ofNat n)

def isNull : Value → Bool
  | .null => true
  | _ => false

def asBool? : Value → Option Bool
  | .bool b => some b
  | _ => none

def asInt? : Value → Option Int64
  | .int n => some n
  | _ => none

/-- The float it is; an integer counts as the float nearest to it. -/
def asFloat? : Value → Option Float
  | .float x => some x
  | .int n => some n.toFloat
  | _ => none

def asString? : Value → Option String
  | .string s => some s
  | _ => none

def asArray? : Value → Option (List Value)
  | .array items => some items
  | _ => none

def asObject? : Value → Option (Keyed Value)
  | .object members => some members
  | _ => none

def get? (v : Value) (key : String) : Option Value := v.asObject?.bind (Keyed.get? key)

def item? (v : Value) (index : Nat) : Option Value := v.asArray?.bind (·[index]?)

mutual

/-- Equality of values. Floats are compared as numbers: no float equals an
integer, the two zeros are equal, and what is not a number equals nothing. -/
def beq : Value → Value → Bool
  | .null, .null => true
  | .bool a, .bool b => a == b
  | .int a, .int b => a == b
  | .float a, .float b => a == b
  | .string a, .string b => a == b
  | .array a, .array b => beqItems a b
  | .object a, .object b => beqMembers a b
  | _, _ => false

def beqItems : List Value → List Value → Bool
  | [], [] => true
  | a :: as, b :: bs => a.beq b && beqItems as bs
  | _, _ => false

def beqMembers : List (String × Value) → List (String × Value) → Bool
  | [], [] => true
  | (k, a) :: as, (l, b) :: bs => k == l && a.beq b && beqMembers as bs
  | _, _ => false

end

instance : BEq Value := ⟨beq⟩

mutual

/-- Every object in the value is sorted by key. -/
def IsMap : Value → Prop
  | .array items => AreMaps items
  | .object members => Keyed.Sorted members ∧ HaveMaps members
  | _ => True

def AreMaps : List Value → Prop
  | [] => True
  | v :: rest => v.IsMap ∧ AreMaps rest

def HaveMaps : List (String × Value) → Prop
  | [] => True
  | (_, v) :: rest => v.IsMap ∧ HaveMaps rest

end

end Value

end PegFlow
