/-
# PegFlow.Grammar.TemplateCheck — templates that can be evaluated

A template refers to slots of its rule, to constants of the grammar and to host
functions that are there. A constant refers to no match, and to earlier
constants only. A spread stands directly in an array or among the arguments of a
call. What can be seen of a literal beforehand is checked too: that access
reaches something in it and that it has parts when it is spread.

Nodes are checked in the order in which they are written, each before the nodes
inside it. A node without a position of its own is reported at that of the node
around it.
-/
import PegFlow.Grammar
import PegFlow.Grammar.Error

namespace PegFlow

set_option autoImplicit false

/-- What a template belongs to. -/
inductive TemplateOwner where
  | rule (arity : Nat)
  | constant (name : String)
deriving DecidableEq, Repr

/-- What a template may refer to. -/
structure TemplateContext where
  owner : TemplateOwner
  constants : List String
  callbacks : List String

namespace Template

/-- Refuse a reference to a slot that is not there. -/
def checkSlot (owner : TemplateOwner) (index : Nat) (pos : Option SourcePosition) :
    Except GrammarError Unit :=
  match owner with
  | .rule arity => if arity < index then .error (.backRefOutOfRange index arity pos) else .ok ()
  | .constant name =>
    .error (.invalidConstant name s!"backreference ${index} has no match to refer to")

/-- Refuse a question about the match where there is none. -/
def checkLocation (owner : TemplateOwner) (what : Meta) : Except GrammarError Unit :=
  match owner with
  | .rule _ => .ok ()
  | .constant name =>
    .error (.invalidConstant name s!"match {what.name} is not available in constants")

/-- Refuse access that reaches nothing in a literal. -/
def checkAccess (value : Value) (access : List Access) (pos : Option SourcePosition) :
    Except GrammarError Unit :=
  match Access.follow access value with
  | .ok _ => .ok ()
  | .error e => .error (.invalidAccess e.message pos)

/-- Whether a value has parts to spread among items. -/
def hasParts : Value → Bool
  | .null => true
  | .string _ => true
  | .array _ => true
  | .object _ => true
  | _ => false

/-- Whether a value has parts to merge into an object. -/
def hasMembers : Value → Bool
  | .null => true
  | .array _ => true
  | .object _ => true
  | _ => false

/-- Refuse the spread of a literal without parts. -/
def checkSpread (inner : Template) (pos : Option SourcePosition) : Except GrammarError Unit :=
  match inner.literalValue? with
  | none => .ok ()
  | some v =>
    if hasParts v then .ok ()
    else .error (.invalidSpread s!"cannot spread a {v.kind.name} literal" pos)

/-- Refuse the merge of a literal without members. -/
def checkMerge (value : Template) (pos : Option SourcePosition) : Except GrammarError Unit :=
  match value.literalValue? with
  | none => .ok ()
  | some v =>
    if hasMembers v then .ok ()
    else
      .error
        (.invalidSpread s!"cannot spread a {v.kind.name} literal into an object" (value.pos.or pos))

mutual

/-- Check a template. `part` says whether a spread may stand here, `around` is the
position of what is around it. -/
def check (c : TemplateContext) (part : Bool) (around : Option SourcePosition) :
    Template → Except GrammarError Unit
  | ⟨kind, access, pos⟩ => checkKind c part access (pos.or around) kind
termination_by structural x => x

def checkKind (c : TemplateContext) (part : Bool) (access : List Access)
    (pos : Option SourcePosition) : TemplateKind → Except GrammarError Unit
  | .literal value => checkAccess value access pos
  | .backRef index _ => checkSlot c.owner index pos
  | .constant name =>
    if c.constants.contains name then .ok () else .error (.unresolvedConstant name pos)
  | .location what => checkLocation c.owner what
  | .spread inner => do
    if !part then
      .error (.invalidSpread "spread is only allowed inside an array, object or call" pos)
    else if !access.isEmpty then .error (.invalidAccess "cannot access into a spread" pos)
    else
      checkSpread inner pos
      check c false pos inner
  | .object members => checkMembers c pos members
  | .array items => checkItems c pos items
  | .call name args =>
    if c.callbacks.contains name then checkItems c pos args
    else .error (.unknownCallback name pos)
  | .pivot inner => check c false pos inner
termination_by structural x => x

def checkItems (c : TemplateContext) (pos : Option SourcePosition) :
    List Template → Except GrammarError Unit
  | [] => .ok ()
  | t :: rest => do
    check c true pos t
    checkItems c pos rest
termination_by structural x => x

def checkMembers (c : TemplateContext) (pos : Option SourcePosition) :
    List Member → Except GrammarError Unit
  | [] => .ok ()
  | .pair _ value :: rest => do
    check c false pos value
    checkMembers c pos rest
  | .merge value :: rest => do
    checkMerge value pos
    check c false pos value
    checkMembers c pos rest
termination_by structural x => x

end

end Template

namespace Grammar

/-- Check constants in order, those named in `defined` being there already. -/
def checkConstants (callbacks : List String) (defined : List String) :
    List Constant → Except GrammarError Unit
  | [] => .ok ()
  | c :: rest => do
    if defined.contains c.name then .error (.duplicateConstant c.name c.pos)
    else
      c.value.check ⟨.constant c.name, defined, callbacks⟩ false c.pos
      checkConstants callbacks (c.name :: defined) rest

def checkRule (callbacks constants : List String) (r : Rule) : Except GrammarError Unit :=
  match r.output with
  | none => .ok ()
  | some t => t.check ⟨.rule r.captures.length, constants, callbacks⟩ false r.pos

/-- Check all templates, those of constants first. -/
def checkTemplates (g : Grammar) (callbacks : List String) : Except GrammarError Unit := do
  checkConstants callbacks [] g.constants
  let constants := g.constants.map Constant.name
  g.rulesets.forM fun s => s.rules.forM (checkRule callbacks constants)

end Grammar

end PegFlow
