/-
# PegFlow.Proofs.Stream.Advance -- what a stream makes of a run

A stream runs its machine as far as the text goes and then says what ends the parse, if
anything does (`Stream.trouble?`, `Stream.advance_eq`). What ends it is possible, or
lookaheads cannot be counted, and it lies within the text so far (`Stream.Live.trouble`).
When nothing does, the stream goes on from where it stands, and on a closed buffer it has
passed (`Stream.Live.goesOn`).
-/
import PegFlow.Parser
import PegFlow.Proofs.Machine.Settles

namespace PegFlow.Stream

set_option autoImplicit false

open Text Machine

/-- What ends a parse whose machine has run, and where. -/
def trouble? (s : Stream) : Option Fault → Option (Fault × Nat)
  | some f => some (f, s.position)
  | none =>
    match s.state.status with
    | .passed =>
      if s.position < s.buffer.length ∧ s.buffer.closed then
        some (.unconsumedInput, max s.position s.state.furthest)
      else none
    | .failed => some (.noMatch, s.state.furthest)
    | _ => none

/-- The stream after its machine has run. -/
def ran (s : Stream) : Stream := { s with state := s.runMachine.1 }

theorem advance_eq (s : Stream) :
    s.advance = match s.ran.trouble? s.runMachine.2 with
      | some (f, p) => s.ran.fail f p
      | none => (s.ran, .ok s.ran.status) := by
  rw [advance]
  show (match s.runMachine.2 with
    | some f => s.ran.fail f s.ran.position
    | none => match s.ran.state.status with
      | .passed => if s.ran.position < s.ran.buffer.length ∧ s.ran.buffer.closed then
          s.ran.fail .unconsumedInput (max s.ran.position s.ran.state.furthest) else (s.ran, .ok s.ran.status)
      | .failed => s.ran.fail .noMatch s.ran.state.furthest
      | _ => (s.ran, .ok s.ran.status)) = _
  cases s.runMachine.2 with
  | some f => rfl
  | none =>
      rw [trouble?]
      cases s.ran.state.status with
      | passed =>
          dsimp only
          split <;> rfl
      | _ => rfl

theorem write_eq {s : Stream} {b : Buffer} {text : String} (error : s.error = none)
    (isOpen : s.buffer.closed = false) (appended : s.buffer.append text = .ok b) :
    s.write text = ({ s with buffer := b } : Stream).advance := by
  simp only [write, error, isOpen, appended]
  rfl

theorem close_eq {s : Stream} (error : s.error = none) :
    s.close = ({ s with buffer := s.buffer.close } : Stream).finish := by
  simp only [close, error]

/-- A stream of a grammar's program that has met no error. -/
structure Live (g : AnnotatedGrammar) (library : Library) (P : String) (s : Stream) : Prop where
  program : s.program = Program.ofGrammar g library
  error : s.error = none
  stands : Stands g library s.buffer P s.state

namespace Live

variable {g : AnnotatedGrammar} {library : Library} {P : String} {s : Stream}

theorem settles (live : s.Live g library P) (linked : g.Linked) :
    Settles g library s.buffer P s.ran.state s.runMachine.2 := by
  obtain ⟨program, -, stands⟩ := live
  have runs : ∀ op, s.state.pending = some op → Follows g library s.buffer P op s.state.resumed →
      Settles g library s.buffer P (Machine.run s.program s.buffer s.state).1
        (Machine.run s.program s.buffer s.state).2 := by
    intro op pending follows
    obtain ⟨n, t, fault, executes, settles⟩ := follows.settles linked pending
    rw [program, executes.run_eq]
    exact settles
  rw [ran, runMachine]
  generalize s.state = u at stands runs
  cases stands with
  | @goesOn op u pending status follows =>
      rcases status with status | status
      · rw [status]
        exact runs op pending follows
      · rw [status]
        exact runs op pending follows
  | accepted accept pending status follows =>
      exact .intro pending status follows (step_accept accept)

/-- What ends a parse is possible, unless lookaheads cannot be counted, and within the text so
far. -/
theorem trouble (live : s.Live g library P) (linked : g.Linked)
    (configured : (Program.ofGrammar g library).Configured) {f : Fault} {p : Nat}
    (h : s.ran.trouble? s.runMachine.2 = some (f, p)) :
    p ≤ P.utf8ByteSize ∧ (f.Possible (0 < s.buffer.start) ∨ f = .internal .noPredicate) := by
  have settles := live.settles linked
  have length : s.ran.buffer.length = P.utf8ByteSize := live.stands.shows.length_eq
  have furthest := settles.furthest_le linked
  cases fault : s.runMachine.2 with
  | some f' =>
      rw [fault] at h settles
      cases h
      obtain ⟨boundary, possible⟩ := settles.possible linked configured
      exact ⟨boundary.le, possible⟩
  | none =>
      rw [fault, trouble?] at h
      split at h
      · split at h
        · rename_i left
          cases h
          exact ⟨by omega, Or.inl trivial⟩
        · cases h
      · cases h
        exact ⟨furthest, Or.inl trivial⟩
      · cases h

/-- When nothing ends a parse it goes on from where it stands; on a closed buffer it has
passed. -/
theorem goesOn (live : s.Live g library P) (linked : g.Linked)
    (h : s.ran.trouble? s.runMachine.2 = none) :
    s.ran.Live g library P ∧ (s.buffer.closed = true → s.ran.status = .passed) := by
  have settles := live.settles linked
  cases fault : s.runMachine.2 with
  | some f' =>
      rw [fault] at h
      cases h
  | none =>
      rw [fault] at h settles
      rcases settles.stands linked with ⟨isOpen, -, stands⟩ | ⟨passed, stands⟩ | failed
      · refine ⟨⟨live.program, live.error, stands⟩, fun isClosed => ?_⟩
        cases isOpen.symm.trans isClosed
      · refine ⟨⟨live.program, live.error, stands⟩, fun isClosed => ?_⟩
        have open_ : s.ran.buffer.closed = true := isClosed
        rw [status, passed, open_]
        simp
      · rw [trouble?, failed] at h
        cases h

/-- More text leaves a stream live. -/
theorem append {b : Buffer} {text : String} (live : s.Live g library P) (isOpen : s.buffer.closed = false)
    (appended : s.buffer.append text = .ok b) (fits : (P ++ text).utf8ByteSize ≤ Buffer.maxOffset) :
    ({ s with buffer := b } : Stream).Live g library (P ++ text) :=
  ⟨live.program, live.error, live.stands.append isOpen appended fits⟩

theorem close (live : s.Live g library P) :
    ({ s with buffer := s.buffer.close } : Stream).Live g library P :=
  ⟨live.program, live.error, live.stands.close⟩

/-- The end of a parse whose input has ended. -/
theorem finish_eq (live : s.Live g library P) (linked : g.Linked) (isClosed : s.buffer.closed = true) :
    s.finish = match s.ran.trouble? s.runMachine.2 with
      | some (f, p) => s.ran.fail f p
      | none => (s.ran, .ok (s.ran.state.output.getD .null)) := by
  rw [finish, advance_eq]
  cases h : s.ran.trouble? s.runMachine.2 with
  | some end_ => rfl
  | none =>
      rw [(live.goesOn linked h).2 isClosed]

end Live

end PegFlow.Stream
