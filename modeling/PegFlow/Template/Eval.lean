/-
# PegFlow.Template.Eval — the value of a template

A template is evaluated in a scope: the captures of a match slot by slot, where
the match is and the input it was made in, and the constants and host functions
of the grammar.

The items of an array and the arguments of a call are *parts*. A part usually
gives one value. A spread gives the items of an array, the characters of a text,
the members of an object as pairs, and nothing for null. A reference that leaves
out skipped captures gives nothing when its slot holds one capture at most and
the value it reaches is null; in a slot of many captures it leaves out the nulls
among them.
-/
import PegFlow.Buffer
import PegFlow.Template
import PegFlow.Value.Pivot

namespace PegFlow

set_option autoImplicit false

/-- A host function: its error is a message. -/
abbrev Callback := List Value → Except String Value

abbrev Callbacks := Keyed Callback

/-- What templates of one grammar share: its constants and the host functions. -/
structure Library where
  constants : Keyed Value := []
  callbacks : Callbacks := []

/-- What a template may read when a rule has matched. `layout` says for each slot
whether it is repeated. -/
structure Scope where
  library : Library
  layout : List Bool
  slots : List Value
  start : Nat
  stop : Nat
  input : Buffer

namespace Scope

def matchedText (s : Scope) : Except Fault Value :=
  match s.input.substrExact s.start (s.stop - s.start) with
  | .ok text => .ok (.string text)
  | .error e => .error (Fault.ofRead e)

def isRepeated (s : Scope) (i : Nat) : Bool := s.layout[i]?.getD false

/-- The captures in slot `i`, counted from zero, with or without nulls. -/
def slot (s : Scope) (i : Nat) (collapse : Bool) : Value :=
  if s.isRepeated i && collapse then
    match s.slots[i]? with
    | some (.array items) => .array (items.filter fun v => !v.isNull)
    | some v => v
    | none => .array []
  else s.slots[i]?.getD .null

/-- Whether a node gives nothing as a part when its value is null. -/
def mayVanish (s : Scope) : TemplateKind → Bool
  | .backRef (i + 1) true => !s.isRepeated i
  | _ => false

end Scope

/-- A name with a value. -/
def Value.entry (key : String) (v : Value) : Value := .array [.string key, v]

/-- The parts of a value that is spread among items. -/
def Value.parts : Value → Except Fault (List Value)
  | .null => .ok []
  | .array items => .ok items
  | .string s => .ok (s.toList.map Value.ofChar)
  | .object members => .ok (members.map fun m => Value.entry m.1 m.2)
  | v => .error (.invalidSpread v.kind)

/-- A member given as a pair of its key and its value. -/
def Value.asEntry : Value → Except Fault (String × Value)
  | .array [.string key, v] => .ok (key, v)
  | v => .error (.invalidSpread v.kind)

/-- The members of a value that is merged into an object. -/
def Value.memberParts : Value → Except Fault (List (String × Value))
  | .null => .ok []
  | .object members => .ok members
  | .array items => items.mapM Value.asEntry
  | v => .error (.invalidSpread v.kind)

namespace Template

/-- Take the steps of an access chain. -/
def reach (access : List Access) (v : Value) : Except Fault Value :=
  match Access.follow access v with
  | .ok v => .ok v
  | .error e => .error (.access e)

def invoke (name : String) (f : Callback) (args : List Value) : Except Fault Value :=
  match f args with
  | .ok v => .ok v
  | .error message => .error (.callback name message)

end Template

/-- What a node whose value is `v` gives as a part. A spread takes no steps of
access of its own. -/
def Scope.parts (s : Scope) (kind : TemplateKind) (access : List Access) (v : Value) :
    Except Fault (List Value) :=
  match kind with
  | .spread _ => v.parts
  | kind => do
    let v ← Template.reach access v
    return if s.mayVanish kind && v.isNull then [] else [v]

namespace Template

mutual

/-- The value of a template. -/
def eval (s : Scope) : Template → Except Fault Value
  | ⟨kind, access, _⟩ => do reach access (← evalKind s kind)

def evalKind (s : Scope) : TemplateKind → Except Fault Value
  | .literal value => .ok value
  | .backRef 0 _ => s.matchedText
  | .backRef (i + 1) collapse => .ok (s.slot i collapse)
  | .constant name => .ok ((Keyed.get? name s.library.constants).getD .null)
  | .location .position => .ok (Value.ofNat s.start)
  | .location .length => .ok (Value.ofNat (s.stop - s.start))
  | .spread inner => eval s inner
  | .object members => do return .object (← evalMembers s [] members)
  | .array items => do return .array (← evalParts s items)
  | .call name args =>
    match Keyed.get? name s.library.callbacks with
    | some f => do invoke name f (← evalParts s args)
    | none => .error (.internal (.unknownCallback name))
  | .pivot inner => do Value.pivot (← eval s inner)

/-- The values of the parts of an array or call, in order. -/
def evalParts (s : Scope) : List Template → Except Fault (List Value)
  | [] => .ok []
  | ⟨kind, access, _⟩ :: rest => do
    let here ← s.parts kind access (← evalKind s kind)
    return here ++ (← evalParts s rest)

/-- The members of an object, put one after the other into `built`. -/
def evalMembers (s : Scope) (built : Keyed Value) : List Member → Except Fault (Keyed Value)
  | [] => .ok built
  | .pair key ⟨kind, access, _⟩ :: rest => do
    let v ← reach access (← evalKind s kind)
    if s.mayVanish kind && v.isNull then evalMembers s built rest
    else evalMembers s (built.insert key v) rest
  | .merge value :: rest => do
    let members ← (← eval s value).memberParts
    evalMembers s (built.insertAll members) rest

end

end Template

end PegFlow
