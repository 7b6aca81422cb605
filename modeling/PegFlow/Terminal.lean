/-
# PegFlow.Terminal — what a grammar tests the input for

A terminal is a literal text, a class of characters or any one character. The
table of a grammar holds each distinct terminal once; terminals are distinct
when they are written differently, so two classes with the same members but
other ranges are two. The place of a terminal in the table is its id, and an
index beside the terminals has the ids by how they are written.
-/
import PegFlow.CharClass.Notation

namespace PegFlow

set_option autoImplicit false

/-- A test of the input. A class keeps the form in which it was written. -/
inductive Terminal where
  | literal (text : String)
  | charClass (spec : ClassSpec) (table : CharClass)
  | any
deriving DecidableEq, Repr

namespace Terminal

/-- The terminal of a class, or the first range whose ends are in the wrong
order. -/
def ofClass? (spec : ClassSpec) : Except CharRange Terminal :=
  (CharClass.compile? spec).map (charClass spec)

/-- How the terminal is named among those expected. -/
def description : Terminal → String
  | .literal text => Text.quoted text
  | .charClass spec _ => spec.describe
  | .any => "any character"

/-- Whether a terminal of one character takes this one; a literal does not. -/
def accepts (t : Terminal) (c : Char) : Bool :=
  match t with
  | .literal _ => false
  | .charClass _ table => table.contains c
  | .any => true

/-- How a terminal is written, which is what it is asked for by. -/
inductive Form where
  | literal (text : String)
  | charClass (spec : ClassSpec)
  | any
deriving DecidableEq, Repr

end Terminal

/-- The distinct terminals of a grammar, the place of each being its id, and the
ids by how the terminals are written. -/
structure TerminalTable where
  terminals : List Terminal
  index : List (Terminal.Form × Nat)
deriving Repr, Inhabited

namespace TerminalTable

def empty : TerminalTable := ⟨[], []⟩

def size (t : TerminalTable) : Nat := t.terminals.length

def get? (t : TerminalTable) (id : Nat) : Option Terminal := t.terminals[id]?

/-- The id of what is written so. -/
def id? (t : TerminalTable) (form : Terminal.Form) : Option Nat := t.index.lookup form

/-- Put a terminal at the end, and its id in the index. -/
def insert (t : TerminalTable) (form : Terminal.Form) (terminal : Terminal) : Nat × TerminalTable :=
  (t.size, ⟨t.terminals ++ [terminal], (form, t.size) :: t.index⟩)

/-- The id of what is written so, or of `terminal` put at the end. -/
def intern (t : TerminalTable) (form : Terminal.Form) (terminal : Terminal) : Nat × TerminalTable :=
  match t.id? form with
  | some id => (id, t)
  | none => t.insert form terminal

def literal (t : TerminalTable) (text : String) : Nat × TerminalTable :=
  t.intern (.literal text) (.literal text)

/-- Ask for the id of a class: the id, or the first range in the wrong order, and the table
afterwards. The class is looked up before it is compiled. -/
def requestClass (t : TerminalTable) (spec : ClassSpec) : Except CharRange Nat × TerminalTable :=
  match t.id? (.charClass spec) with
  | some id => (.ok id, t)
  | none =>
    match Terminal.ofClass? spec with
    | .error r => (.error r, t)
    | .ok terminal =>
      let (id, after) := t.insert (.charClass spec) terminal
      (.ok id, after)

/-- The id of a class and the table with it, or the first range in the wrong order. -/
def charClass (t : TerminalTable) (spec : ClassSpec) : Except CharRange (Nat × TerminalTable) :=
  match t.requestClass spec with
  | (.ok id, after) => .ok (id, after)
  | (.error r, _) => .error r

def any (t : TerminalTable) : Nat × TerminalTable := t.intern .any .any

end TerminalTable

end PegFlow
