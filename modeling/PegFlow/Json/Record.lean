/-
# PegFlow.Json.Record — records, choices and lists in documents

A record is written as an object with its field names for keys, or as an array
of its fields in order. In an object unknown keys are passed over and a known
key may appear once; an array may stop early and may not run on.

A choice between kinds of record is written with a tag: a member of the object, or the first item of the array. Its parts are all read before the
tag is looked at, so none of them may be void, not even an unknown one, and
inside them a tag may also be given by its number.
-/
import PegFlow.Json

namespace PegFlow.Json

set_option autoImplicit false

/-- The one value of a key: `some none` when the key is missing, `none` when it
is repeated. -/
def member? (members : List (String × Json)) (name : String) : Option (Option Json) :=
  match members.filter (·.1 == name) with
  | [] => some none
  | [m] => some (some m.2)
  | _ => none

/-- The fields of a record, in the order of `names`; `none` inside for one that
is not given. -/
def fields? (names : List String) : Json → Option (List (Option Json))
  | .object members => names.mapM (member? members)
  | .array items =>
    if items.length ≤ names.length then
      some (items.map some ++ List.replicate (names.length - items.length) none)
    else none
  | _ => none

/-- The tag of a choice and the record it marks. `inside` says that an
enclosing choice has already read all parts. -/
def tagged? (inside : Bool) (key : String) (j : Json) : Option (Json × Json) :=
  if inside || j.isSolid then
    match j with
    | .object members =>
      match member? members key with
      | some (some tag) => some (tag, .object (members.filter (·.1 != key)))
      | _ => none
    | .array (tag :: items) => some (tag, .array items)
    | _ => none
  else none

/-- The position of a tag in `names`. -/
def tagIndex? (inside : Bool) (names : List String) : Json → Option Nat
  | .string s => names.findIdx? (· == s)
  | .int n => if inside ∧ 0 ≤ n ∧ n < names.length then some n.toNat else none
  | _ => none

def isNull : Json → Bool
  | .null => true
  | _ => false

def bool? : Json → Option Bool
  | .bool b => some b
  | _ => none

def int? : Json → Option Int64
  | .int n => int64? n
  | _ => none

def nat? : Json → Option Nat
  | .int n => if 0 ≤ n ∧ n.toNat < UInt64.size then some n.toNat else none
  | _ => none

/-- A float, or the one nearest to an integer. -/
def float? : Json → Option Float
  | .float x => some x
  | .int n => some (nearest n)
  | _ => none

def string? : Json → Option String
  | .string s => some s
  | _ => none

def char? : Json → Option Char
  | .string s =>
    match s.toList with
    | [c] => some c
    | _ => none
  | _ => none

def items? : Json → Option (List Json)
  | .array items => some items
  | _ => none

def members? : Json → Option (List (String × Json))
  | .object members => some members
  | _ => none

/-- The position in `names` of a choice without content. -/
def named? (names : List String) : Json → Option Nat
  | .string s => names.findIdx? (· == s)
  | .object [(name, .null)] => names.findIdx? (· == name)
  | .object [(name, .object [])] => names.findIdx? (· == name)
  | _ => none

/-- The position in `names` of a choice, and its content. -/
def variant? (names : List String) : Json → Option (Nat × Json)
  | .object [(name, content)] => (names.findIdx? (· == name)).map (·, content)
  | _ => none

end PegFlow.Json
