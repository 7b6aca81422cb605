/-
# PegFlow.Stream — a parse that is fed piece by piece

A stream runs its program as far as the text so far allows. It reports an error
as soon as no further text can help, and the first error is final: it is the
answer to everything that follows. A grammar that has matched while there is
text left is still waiting, because only the end of the input decides whether
the rest is an error.
-/
import PegFlow.Machine.Run
import PegFlow.ParseError

namespace PegFlow

set_option autoImplicit false

/-- A parse under way. -/
structure Stream where
  program : Program
  buffer : Buffer
  state : State
  error : Option ParseError := none

namespace Stream

/-- A parse of the text in a buffer and what follows it. -/
def start (program : Program) (buffer : Buffer) : Stream :=
  { program, buffer, state := State.start program }

/-- The offset up to which the input is used up. -/
def position (s : Stream) : Nat := s.state.pos

/-- Where the parse stands. -/
def status (s : Stream) : Status :=
  if s.state.status = .passed ∧ s.position < s.buffer.length ∧ !s.buffer.closed then .waiting
  else s.state.status

/-- A fault at a position, with what can be said about the place. -/
def errorAt (s : Stream) (fault : Fault) (position : Nat) : ParseError :=
  let lineAndColumn := (s.buffer.lineAndColumn position).toOption
  let pointer := lineAndColumn.bind fun place =>
    (s.buffer.lineText position).map fun line => pointerText line place.2
  let expected :=
    match fault with
    | .inputFreed .. => []
    | _ => if position = s.state.furthest then s.state.expectedTexts s.program else []
  { fault, position, lineAndColumn, pointer, expected }

def fail {α : Type} (s : Stream) (fault : Fault) (position : Nat) :
    Stream × Except ParseError α :=
  let e := s.errorAt fault position
  ({ s with error := some e }, .error e)

/-- The state of the machine after it has run as far as it can. -/
def runMachine (s : Stream) : State × Option Fault :=
  match s.state.status with
  | .running => Machine.run s.program s.buffer s.state
  | .waiting => Machine.run s.program s.buffer s.state
  | _ => (s.state, none)

/-- Run as far as the text allows. -/
def advance (s : Stream) : Stream × Except ParseError Status :=
  let (state, fault) := s.runMachine
  let s := { s with state }
  match fault with
  | some f => s.fail f s.position
  | none =>
    match state.status with
    | .passed =>
      if s.position < s.buffer.length ∧ s.buffer.closed then
        s.fail .unconsumedInput (max s.position state.furthest)
      else (s, .ok s.status)
    | .failed => s.fail .noMatch state.furthest
    | _ => (s, .ok s.status)

def write (s : Stream) (text : String) : Stream × Except ParseError Status :=
  match s.error with
  | some e => (s, .error e)
  | none =>
    if s.buffer.closed then s.fail .writeAfterClose s.buffer.length
    else
      match s.buffer.append text with
      | .ok buffer => { s with buffer }.advance
      | .error e => s.fail (Fault.ofRead e) s.buffer.length

/-- The output of a parse whose input has ended. -/
def finish (s : Stream) : Stream × Except ParseError Value :=
  match s.advance with
  | (s, .error e) => (s, .error e)
  | (s, .ok .passed) => (s, .ok (s.state.output.getD .null))
  | (s, .ok status) => s.fail (.internal (.unsettled status)) s.position

def close (s : Stream) : Stream × Except ParseError Value :=
  match s.error with
  | some e => (s, .error e)
  | none => { s with buffer := s.buffer.close }.finish

end Stream

end PegFlow
