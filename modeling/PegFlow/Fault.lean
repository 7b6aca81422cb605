/-
# PegFlow.Fault — what can go wrong while input is matched

A `Fault` is the reason a parse ends without a value. Each has a stable code and
a wording. A `Defect` is a fault of the machine rather than of the text: it says
which of the machine's own bounds was broken.
-/
import PegFlow.Value.Access

namespace PegFlow

set_option autoImplicit false

/-- Why a read from the input buffer gave nothing. -/
inductive ReadError where
  /-- The text may still grow to where the read ends. -/
  | needInput
  /-- The text has ended before the read does. -/
  | endOfInput
  /-- The read starts before what is still held. -/
  | inputFreed (offset retainedFrom : Nat)
  /-- The read starts or ends inside a character. -/
  | misaligned (offset : Nat)
  /-- Text was added after the end. -/
  | closed
deriving DecidableEq, Repr

def ReadError.message : ReadError → String
  | .needInput => "more input is needed"
  | .endOfInput => "end of input"
  | .inputFreed offset retainedFrom =>
    s!"offset {offset} was freed (retained window starts at {retainedFrom})"
  | .misaligned offset => s!"offset {offset} is not on a character boundary"
  | .closed => "buffer is closed"

/-- Where a machine stands. -/
inductive Status where
  /-- Not started, or stopped by a fault. -/
  | running
  | passed
  | failed
  /-- Suspended until more text arrives. -/
  | waiting
deriving DecidableEq, Repr

def Status.name : Status → String
  | .running => "Run"
  | .passed => "Pass"
  | .failed => "Fail"
  | .waiting => "WaitInput"

/-- A broken bound of the machine itself. -/
inductive Defect where
  | opOutOfRange
  | terminalOutOfRange
  | ruleOutOfRange
  | rulesetOutOfRange
  | noScope
  | noLoop
  | noCaptureStart
  | noPredicate
  | noFrame
  | captureBasePastEnd
  | unexpectedRead (error : ReadError)
  | unknownCallback (name : String)
  | unsettled (status : Status)
deriving DecidableEq, Repr

def Defect.message : Defect → String
  | .opOutOfRange => "op index out of range"
  | .terminalOutOfRange => "terminal index out of range"
  | .ruleOutOfRange => "rule index out of range"
  | .rulesetOutOfRange => "ruleset index out of range"
  | .noScope => "backtrack scope underflow"
  | .noLoop => "loop underflow"
  | .noCaptureStart => "capture nesting underflow"
  | .noPredicate => "predicate nesting underflow"
  | .noFrame => "call frame underflow"
  | .captureBasePastEnd => "capture base past end of captures"
  | .unexpectedRead error => s!"unexpected buffer read failure: {error.message}"
  | .unknownCallback name => s!"callback `{name}` is not configured"
  | .unsettled status => s!"closed input left the parse in {status.name}"

/-- The reason a parse ends without a value. -/
inductive Fault where
  | noMatch
  /-- The grammar matches only a beginning of the text. -/
  | unconsumedInput
  /-- Text is needed again that is no longer held. -/
  | inputFreed (offset retainedFrom : Nat)
  /-- A template reaches for a part that is not there. -/
  | access (error : AccessError)
  /-- A template spreads a value that has no parts to spread there. -/
  | invalidSpread (found : Value.Kind)
  /-- A template pivots a value that has no rows or columns; `none` is an array
  of items of both sorts. -/
  | invalidPivot (found : Option Value.Kind)
  | callback (name message : String)
  | writeAfterClose
  /-- Reading octets from outside failed. -/
  | inputOutput (message : String)
  /-- A bound of the machine was broken. -/
  | internal (defect : Defect)
deriving DecidableEq, Repr

namespace Fault

/-- The stable number of a fault. -/
def code : Fault → Nat
  | .noMatch => 200
  | .unconsumedInput => 201
  | .inputFreed .. => 202
  | .access _ => 203
  | .invalidSpread _ => 204
  | .invalidPivot _ => 205
  | .callback .. => 206
  | .writeAfterClose => 207
  | .inputOutput _ => 208
  | .internal _ => 299

def message : Fault → String
  | .noMatch => "no match"
  | .unconsumedInput => "unexpected input after a complete match"
  | .inputFreed offset retainedFrom =>
    s!"input at offset {offset} was freed (retained window starts at {retainedFrom})"
  | .access error => error.message
  | .invalidSpread found => s!"cannot spread a {found.name} value here"
  | .invalidPivot (some found) => s!"cannot pivot a {found.name} value"
  | .invalidPivot none => "cannot pivot a mixed array value"
  | .callback name message => s!"callback `{name}` failed: {message}"
  | .writeAfterClose => "write after close"
  | .inputOutput message => s!"i/o error: {message}"
  | .internal defect => s!"internal error: {defect.message}"

/-- The fault behind a read that must not fail: only freed input is possible. -/
def ofRead : ReadError → Fault
  | .inputFreed offset retainedFrom => .inputFreed offset retainedFrom
  | error => .internal (.unexpectedRead error)

end Fault

end PegFlow
