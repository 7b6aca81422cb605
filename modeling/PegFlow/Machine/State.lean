/-
# PegFlow.Machine.State — the state of one parse

The machine has a position in the input, a list of captures, and stacks for what
is open: notes to come back to, starts of captures, loops and calls. `furthest`
is the greatest position at which a terminal failed outside every lookahead, and
`expected` the terminals that failed there.
-/
import PegFlow.Program

namespace PegFlow

set_option autoImplicit false

/-- Position and number of captures, to come back to. -/
structure Mark where
  pos : Nat
  captures : Nat
deriving DecidableEq, Repr

/-- A captured value and its slot, counted from one. -/
structure Capture where
  slot : Nat
  value : Value

/-- A loop: the rounds that matched, and where the current one began. -/
structure Loop where
  count : Nat
  start : Nat
  captures : Nat
deriving DecidableEq, Repr

/-- The best result so far of a ruleset that calls itself at its start, and where
it ends. -/
structure Seed where
  value : Value
  stop : Nat

/-- A call of a ruleset at a position. `leftRecursive` is set when the ruleset was
called again at that position in the meantime; it is then tried again with its
last result as the answer to that call, as long as results get longer. -/
structure Frame where
  ruleset : Nat
  pass : Nat
  fail : Nat
  start : Nat
  captureBase : Nat
  leftRecursive : Bool := false
  best : Option Seed := none

/-- The state of one parse. The tops of the stacks are the heads of the lists. -/
structure State where
  pos : Nat := 0
  marks : List Mark := []
  captures : Array Capture := #[]
  captureStarts : List Nat := []
  loops : List Loop := []
  frames : List Frame := []
  /-- The lookaheads that are open, as far as they can be counted; failures inside them are
  not reported. -/
  quiet : UInt32 := 0
  result : Option Value := none
  status : Status := .running
  /-- The op to go on with. -/
  pending : Option Nat := none
  output : Option Value := none
  furthest : Nat := 0
  expected : List Nat := []

/-- Whether a frame is a call of this ruleset at this position. -/
def Frame.isAt (f : Frame) (ruleset pos : Nat) : Bool := f.ruleset == ruleset && f.start == pos

/-- Note in the first frame of a ruleset at a position that it is left
recursive. -/
def Frame.noteRecursion (ruleset pos : Nat) : List Frame → List Frame
  | [] => []
  | f :: rest =>
    if f.isAt ruleset pos then { f with leftRecursive := true } :: rest
    else f :: noteRecursion ruleset pos rest

/-- The values of the slots of a layout: all captures of a repeated slot in
order, and the last one of any other slot. -/
def Capture.assemble (layout : List Bool) (captures : List Capture) : List Value :=
  layout.zipIdx.map fun (isRepeated, i) =>
    let values := captures.filterMap fun c => if c.slot = i + 1 then some c.value else none
    if isRepeated then .array values else values.getLast?.getD .null

namespace State

def start (p : Program) : State := { pending := some p.root }

def keepCaptures (s : State) (n : Nat) : State := { s with captures := s.captures.shrink n }

/-- Note position and captures. -/
def mark (s : State) : State := { s with marks := ⟨s.pos, s.captures.size⟩ :: s.marks }

def record (s : State) (slot : Nat) (value : Value) : State :=
  { s with captures := s.captures.push ⟨slot, value⟩ }

def recordNulls (s : State) (slots : List Nat) : State :=
  slots.foldl (fun s slot => s.record slot .null) s

/-- Note that a terminal failed here. -/
def noteFailure (s : State) (terminal : Nat) : State :=
  if s.quiet ≠ 0 then s
  else if s.furthest < s.pos then { s with furthest := s.pos, expected := [terminal] }
  else if s.furthest = s.pos ∧ !s.expected.contains terminal then
    { s with expected := terminal :: s.expected }
  else s

/-- The descriptions of the terminals expected at the furthest position, sorted,
each once. -/
def expectedTexts (s : State) (p : Program) : List String :=
  Keyed.keys (Keyed.ofList ((s.expected.filterMap fun id => p.terminals[id]?).map fun t =>
    (t.description, ())))

end State

end PegFlow
