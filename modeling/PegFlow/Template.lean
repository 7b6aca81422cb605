/-
# PegFlow.Template — how a match becomes a value

A rule carries a template that says which value its match stands for. A template
is a kind of node followed by an access chain. Nodes refer to captures by slot,
to constants of the grammar by name and to the place of the match; they build
arrays, objects and calls of host functions from the values of their parts.

`walk` lists the nodes of a template, each before the nodes inside it.
-/
import PegFlow.Value.Access
import PegFlow.Text.Position

namespace PegFlow

set_option autoImplicit false

/-- What a template may ask of the place of a match. -/
inductive Meta where
  /-- The offset at which the match starts. -/
  | position
  /-- The number of octets matched. -/
  | length
deriving DecidableEq, Repr

def Meta.name : Meta → String
  | .position => "position"
  | .length => "length"

mutual

/-- A node, the steps taken from its value, and where it was written. -/
structure Template where
  kind : TemplateKind
  access : List Access := []
  pos : Option SourcePosition := none

/-- What a node denotes. -/
inductive TemplateKind where
  | literal (value : Value)
  /-- The capture in a slot, counted from one; slot zero is the matched text.
  When `collapse` is set, nulls of captures that were skipped are left out. -/
  | backRef (index : Nat) (collapse : Bool)
  | constant (name : String)
  /-- Where the match is. -/
  | location (what : Meta)
  /-- The parts of a value, in the array or call around it. -/
  | spread (inner : Template)
  | object (members : List Member)
  | array (items : List Template)
  /-- What a host function gives. -/
  | call (name : String) (args : List Template)
  /-- Rows and columns exchanged. -/
  | pivot (inner : Template)

/-- A part of an object. -/
inductive Member where
  | pair (key : String) (value : Template)
  /-- All members of an object, or of an array of pairs. -/
  | merge (value : Template)

end

namespace Template

instance : Inhabited Template := ⟨⟨.literal .null, [], none⟩⟩

def ofKind (kind : TemplateKind) : Template := ⟨kind, [], none⟩

def literal (value : Value) : Template := ofKind (.literal value)

/-- The capture in a slot, nulls kept. -/
def back (index : Nat) : Template := ofKind (.backRef index false)

def constant (name : String) : Template := ofKind (.constant name)

def location (what : Meta) : Template := ofKind (.location what)

def spread (inner : Template) : Template := ofKind (.spread inner)

def array (items : List Template) : Template := ofKind (.array items)

def object (members : List Member) : Template := ofKind (.object members)

def call (name : String) (args : List Template) : Template := ofKind (.call name args)

def pivot (inner : Template) : Template := ofKind (.pivot inner)

/-- Leave out the nulls of a reference to a capture; other nodes stay. -/
def collapse (t : Template) : Template :=
  match t.kind with
  | .backRef index _ => { t with kind := .backRef index true }
  | _ => t

def dot (t : Template) (step : Access) : Template := { t with access := t.access ++ [step] }

def writtenAt (t : Template) (pos : SourcePosition) : Template := { t with pos := some pos }

/-- The value of a node that is a value without access. -/
def literalValue? (t : Template) : Option Value :=
  match t.kind, t.access with
  | .literal value, [] => some value
  | _, _ => none

mutual

/-- The node itself, then all nodes inside it. -/
def walk : Template → List Template
  | ⟨kind, access, pos⟩ => ⟨kind, access, pos⟩ :: walkKind kind

def walkKind : TemplateKind → List Template
  | .spread inner => inner.walk
  | .pivot inner => inner.walk
  | .array items => walkItems items
  | .call _ args => walkItems args
  | .object members => walkMembers members
  | _ => []

def walkItems : List Template → List Template
  | [] => []
  | t :: rest => t.walk ++ walkItems rest

def walkMembers : List Member → List Template
  | [] => []
  | .pair _ value :: rest => value.walk ++ walkMembers rest
  | .merge value :: rest => value.walk ++ walkMembers rest

end

mutual

/-- Equality of templates, literal values compared as values. -/
def beq : Template → Template → Bool
  | ⟨kind, access, pos⟩, ⟨kind', access', pos'⟩ =>
    beqKind kind kind' && access == access' && pos == pos'
termination_by structural t _ => t

def beqKind : TemplateKind → TemplateKind → Bool
  | .literal v, .literal v' => v == v'
  | .backRef index collapse, .backRef index' collapse' => index == index' && collapse == collapse'
  | .constant name, .constant name' => name == name'
  | .location what, .location what' => what == what'
  | .spread inner, .spread inner' => inner.beq inner'
  | .object members, .object members' => beqMembers members members'
  | .array items, .array items' => beqItems items items'
  | .call name args, .call name' args' => name == name' && beqItems args args'
  | .pivot inner, .pivot inner' => inner.beq inner'
  | _, _ => false
termination_by structural t _ => t

def beqItems : List Template → List Template → Bool
  | [], [] => true
  | t :: rest, t' :: rest' => t.beq t' && beqItems rest rest'
  | _, _ => false
termination_by structural t _ => t

def beqMembers : List Member → List Member → Bool
  | [], [] => true
  | .pair key value :: rest, .pair key' value' :: rest' =>
    key == key' && value.beq value' && beqMembers rest rest'
  | .merge value :: rest, .merge value' :: rest' => value.beq value' && beqMembers rest rest'
  | _, _ => false
termination_by structural t _ => t

end

instance : BEq Template := ⟨beq⟩

end Template

end PegFlow
