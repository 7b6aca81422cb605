/-
# PegFlow.Machine.Step — one op at a time

`step` runs one op. The machine goes on with another op, halts, or stops at a
fault. It halts when the program accepts or rejects, and when a terminal needs
text that has not arrived; the terminal is then the op to go on with.

A ruleset that is called again at the position where it was already called gets
its best result so far for an answer, and fails when it has none. When it then
matches, its result becomes the next answer and it is tried again from its
start; the first try that does not end further gives the call its result.
-/
import PegFlow.Machine.State

namespace PegFlow

set_option autoImplicit false

/-- How one op turns out. -/
inductive Progress where
  | next (op : Nat) (s : State)
  | halt (s : State)
  | fault (f : Fault) (s : State)

namespace Progress

def defect (d : Defect) (s : State) : Progress := .fault (.internal d) s

end Progress

/-- Test the input at `p`: the octets of the match, or `none`. -/
def Terminal.matchAt (t : Terminal) (b : Buffer) (p : Nat) : Except ReadError (Option Nat) :=
  match t with
  | .literal text => do
    return if ← b.startsWith p text then some text.utf8ByteSize else none
  | t => do
    let c ← b.charAt p
    return if t.accepts c then some (Text.charSize c) else none

namespace State

def leaveLoop (s : State) (least pass fail : Nat) : Progress :=
  match s.loops with
  | [] => .defect .noLoop s
  | l :: rest => .next (if least ≤ l.count then pass else fail) { s with loops := rest }

def goBack (s : State) (next : Nat) : Progress :=
  match s.marks with
  | [] => .defect .noScope s
  | m :: rest => .next next { s.keepCaptures m.captures with pos := m.pos, marks := rest }

/-- Go back to the last note after looking ahead. -/
def stopLooking (s : State) (next : Nat) : Progress :=
  match s.marks with
  | [] => .defect .noScope s
  | m :: rest =>
    let s := { s.keepCaptures m.captures with pos := m.pos, marks := rest }
    if s.quiet = 0 then .defect .noPredicate s
    else .next next { s with quiet := s.quiet - 1 }

/-- Go on after a round that matched. -/
def nextRound (s : State) (body least pass fail : Nat) : Progress :=
  match s.loops with
  | [] => .defect .noLoop s
  | l :: rest =>
    if s.pos = l.start then (s.keepCaptures l.captures).leaveLoop least pass fail
    else .next body { s with loops := ⟨l.count + 1, s.pos, s.captures.size⟩ :: rest }

/-- Record the capture that was started last. -/
def endCapture (b : Buffer) (s : State) (slot : Nat) (ofRule : Bool) (next : Nat) : Progress :=
  match s.captureStarts with
  | [] => .defect .noCaptureStart s
  | start :: rest =>
    let s := { s with captureStarts := rest }
    if ofRule then
      let value := s.result.getD .null
      .next next ({ s with result := none }.record slot value)
    else
      match b.substrExact start (s.pos - start) with
      | .ok text => .next next (s.record slot (.string text))
      | .error e => .fault (Fault.ofRead e) s

/-- Test the input for a terminal; `op` is this op itself. -/
def testTerminal (p : Program) (b : Buffer) (s : State) (op id pass fail : Nat) : Progress :=
  match p.terminals[id]? with
  | none => .defect .terminalOutOfRange s
  | some t =>
    match t.matchAt b s.pos with
    | .ok (some size) => .next pass { s with pos := s.pos + size }
    | .ok none => .next fail (s.noteFailure id)
    | .error .endOfInput => .next fail (s.noteFailure id)
    | .error .needInput => .halt { s with status := .waiting, pending := some op }
    | .error e => .fault (Fault.ofRead e) s

def call (p : Program) (s : State) (ruleset pass fail : Nat) : Progress :=
  match s.frames.find? fun f => f.isAt ruleset s.pos with
  | some f =>
    let s := { s with frames := Frame.noteRecursion ruleset s.pos s.frames }
    match f.best with
    | some seed => .next pass { s with result := some seed.value, pos := seed.stop }
    | none => .next fail s
  | none =>
    match p.entries[ruleset]? with
    | none => .defect .rulesetOutOfRange s
    | some entry =>
      let frame : Frame :=
        { ruleset, pass, fail, start := s.pos, captureBase := s.captures.size }
      .next entry { s with frames := frame :: s.frames }

/-- The scope of the template of a rule that matched from `start` to here. -/
def scope (p : Program) (b : Buffer) (s : State) (start : Nat) (layout : List Bool)
    (captures : List Capture) : Scope :=
  { library := p.library, layout, slots := Capture.assemble layout captures
    start, stop := s.pos, input := b }

/-- The output of a rule. -/
def ruleOutput (scope : Scope) (template : Option Template) : Except Fault Value :=
  match template with
  | some t => t.eval scope
  | none => scope.matchedText

def giveOutput (p : Program) (b : Buffer) (s : State) (rule next : Nat) : Progress :=
  match s.frames with
  | [] => .defect .noFrame s
  | f :: _ =>
    match p.rules[rule]? with
    | none => .defect .ruleOutOfRange s
    | some r =>
      if s.captures.size < f.captureBase then .defect .captureBasePastEnd s
      else
        let captures := (s.captures.extract f.captureBase s.captures.size).toList
        let s := s.keepCaptures f.captureBase
        match ruleOutput (s.scope p b f.start r.layout captures) r.template with
        | .ok v => .next next { s with result := some v }
        | .error e => .fault e s

/-- Leave a ruleset that matched, or try it again when its result got longer. -/
def leave (p : Program) (s : State) : Progress :=
  match s.frames with
  | [] => .defect .noFrame s
  | f :: rest =>
    if f.leftRecursive then
      let retry : Progress :=
        let seed : Seed := ⟨s.result.getD .null, s.pos⟩
        let frame := { f with best := some seed }
        let s := { s.keepCaptures f.captureBase with
          frames := frame :: rest, pos := f.start, result := none }
        match p.entries[f.ruleset]? with
        | some entry => .next entry s
        | none => .defect .rulesetOutOfRange s
      match f.best with
      | none => retry
      | some seed =>
        if seed.stop < s.pos then retry
        else
          .next f.pass { s with frames := rest, pos := seed.stop, result := some seed.value }
    else .next f.pass { s with frames := rest }

/-- Leave a ruleset that did not match, with its best result if it has one. -/
def leaveFailed (s : State) : Progress :=
  match s.frames with
  | [] => .defect .noFrame s
  | f :: rest =>
    let s := { s.keepCaptures f.captureBase with frames := rest }
    match f.best with
    | some seed => .next f.pass { s with pos := seed.stop, result := some seed.value }
    | none => .next f.fail { s with pos := f.start }

end State

/-- Run the op at place `op`. -/
def step (p : Program) (b : Buffer) (op : Nat) (s : State) : Progress :=
  match p.ops[op]? with
  | none => .defect .opOutOfRange s
  | some (.enter next) => .next next s.mark
  | some (.commit next) =>
    match s.marks with
    | [] => .defect .noScope s
    | _ :: rest => .next next { s with marks := rest }
  | some (.rollback next) => s.goBack next
  | some (.lookEnter next) => .next next { s.mark with quiet := s.quiet + 1 }
  | some (.lookExit next) => s.stopLooking next
  | some (.pushNulls slots next) => .next next (s.recordNulls slots)
  | some (.loopEnter body) =>
    .next body { s with loops := ⟨0, s.pos, s.captures.size⟩ :: s.loops }
  | some (.loopNext body least pass fail) => s.nextRound body least pass fail
  | some (.loopExit least pass fail) => s.leaveLoop least pass fail
  | some (.captureStart next) => .next next { s with captureStarts := s.pos :: s.captureStarts }
  | some (.captureEnd slot ofRule next) => State.endCapture b s slot ofRule next
  | some (.captureFail next) =>
    match s.captureStarts with
    | [] => .defect .noCaptureStart s
    | _ :: rest => .next next { s with captureStarts := rest }
  | some (.terminal id pass fail) => State.testTerminal p b s op id pass fail
  | some (.call ruleset pass fail) => State.call p s ruleset pass fail
  | some (.output rule next) => State.giveOutput p b s rule next
  | some .ret => State.leave p s
  | some .retFail => s.leaveFailed
  | some .accept =>
    .halt { s with status := .passed, output := some (s.result.getD .null), result := none }
  | some .reject => .halt { s with status := .failed }

end PegFlow
