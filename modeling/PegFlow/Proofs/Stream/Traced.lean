/-
# PegFlow.Proofs.Stream.Traced -- the course of a stream

A stream that goes on is at a moment of a course (`Stream.Traced.visits`). One that ended because
the grammar does not match, or at a broken bound, has come to the end of a course
(`Stream.Reachable.traced`). The answer of a call that failed is kept by the stream that the call
left (`Parser.Fails.kept`).
-/
import PegFlow.Proofs.Machine.Course
import PegFlow.Proofs.Machine.Raised
import PegFlow.Proofs.Stream.Calls

namespace PegFlow

set_option autoImplicit false

open Text Machine

namespace Stream

/-- The stream goes on at a moment of a course. If it has ended because the grammar does not
match, it was rejected at the end of a course, and if it has at a broken bound, a course came to
that fault. -/
structure Traced (p : Program) (s : Stream) : Prop where
  goesOn : s.error = none → ∀ op, s.state.pending = some op → ∃ past, Course p past ⟨s.buffer, op, s.state.resumed⟩
  rejected : ∀ e, s.error = some e → e.fault = .noMatch → ∃ past now, Course p past now ∧
    now.buffer = s.buffer ∧ now.turn p = .halt s.state ∧ s.state.status = .failed ∧
      e.position = s.state.furthest ∧ e.expected = s.state.expectedTexts p
  broken : ∀ e d, s.error = some e → e.fault = .internal d → ∃ past now, Course p past now ∧
    now.buffer = s.buffer ∧ now.turn p = .fault e.fault s.state

variable {g : AnnotatedGrammar} {library : Library} {P : String} {s : Stream}

theorem Traced.of_other {e : ParseError} (error : s.error = some e) (matched : e.fault ≠ .noMatch)
    (sound : ∀ d, e.fault ≠ .internal d) (p : Program) : s.Traced p := by
  refine ⟨fun none => ?_, fun e' error' noMatch => ?_, fun e' d error' defect => ?_⟩
  · cases none.symm.trans error
  · cases error.symm.trans error'
    exact absurd noMatch matched
  · cases error.symm.trans error'
    exact absurd defect (sound d)

theorem Traced.of_none {p : Program} (error : s.error = none)
    (goesOn : ∀ op, s.state.pending = some op → ∃ past, Course p past ⟨s.buffer, op, s.state.resumed⟩) :
    s.Traced p := by
  refine ⟨fun _ => goesOn, fun e some => ?_, fun e d some => ?_⟩
  · cases error.symm.trans some
  · cases error.symm.trans some

/-- A stream that goes on comes to the end of a course. -/
theorem Live.ran_course (live : s.Live g library P) (linked : g.Linked)
    (traced : s.Traced (Program.ofGrammar g library)) (going : s.state.status ≠ .passed) :
    ∃ past now, Course (Program.ofGrammar g library) past now ∧ now.buffer = s.buffer ∧
      now.turn (Program.ofGrammar g library) = Progress.ended s.ran.state s.runMachine.2 := by
  have runs : ∀ op, s.state.pending = some op → Follows g library s.buffer P op s.state.resumed →
      ∃ past now, Course (Program.ofGrammar g library) past now ∧ now.buffer = s.buffer ∧
        now.turn (Program.ofGrammar g library) = Progress.ended (Machine.run s.program s.buffer s.state).1
          (Machine.run s.program s.buffer s.state).2 := by
    intro op pending follows
    obtain ⟨past, course⟩ := traced.goesOn live.error op pending
    obtain ⟨n, t, fault, executes, -⟩ := follows.settles linked pending
    rw [live.program, executes.run_eq]
    cases executes with
    | idle halted => cases halted.symm.trans pending
    | halts pending' steps halt =>
        cases pending'.symm.trans pending
        obtain ⟨past', course'⟩ := course.steps steps
        exact ⟨past', _, course', rfl, halt⟩
    | faults pending' steps fault =>
        cases pending'.symm.trans pending
        obtain ⟨past', course'⟩ := course.steps steps
        exact ⟨past', _, course', rfl, fault⟩
  have stands := live.stands
  rw [ran, runMachine]
  generalize s.state = u at stands runs going
  cases stands with
  | @goesOn op u pending status follows =>
      rcases status with status | status
      · rw [status]
        exact runs op pending follows
      · rw [status]
        exact runs op pending follows
  | accepted => exact absurd rfl going

/-- What ends a run leaves the stream traced. -/
theorem Live.fail_traced (live : s.Live g library P) (linked : g.Linked)
    (traced : s.Traced (Program.ofGrammar g library)) {f : Fault} {p : Nat}
    (ended : s.ran.trouble? s.runMachine.2 = some (f, p)) {α : Type} :
    (s.ran.fail f p : Stream × Except ParseError α).1.Traced (Program.ofGrammar g library) := by
  by_cases passed : s.state.status = .passed
  · obtain ⟨idle, same⟩ := ran_of_passed passed
    rw [same, idle, trouble?, passed] at ended
    dsimp only at ended
    split at ended
    · cases ended
      exact .of_other rfl (by rintro ⟨⟩) (by rintro _ ⟨⟩) _
    · cases ended
  · obtain ⟨past, now, course, buffer, turn⟩ := live.ran_course linked traced passed
    cases fault : s.runMachine.2 with
    | some f' =>
        rw [fault] at ended turn
        cases ended
        refine ⟨by rintro ⟨⟩, fun e error noMatch => ?_, fun e d error defect => ?_⟩
        · cases error
          cases show f = .noMatch from noMatch
          exact (step_raises _ _ _ _ _ _ turn).elim
        · cases error
          exact ⟨past, now, course, buffer, turn⟩
    | none =>
        rw [fault] at ended turn
        rw [trouble?] at ended
        split at ended
        · split at ended
          · cases ended
            exact .of_other rfl (by rintro ⟨⟩) (by rintro _ ⟨⟩) _
          · cases ended
        · rename_i failed
          cases ended
          refine ⟨by rintro ⟨⟩, fun e error _ => ?_, fun e d error defect => ?_⟩
          · cases error
            exact ⟨past, now, course, buffer, turn, failed, rfl, live.program ▸ if_pos rfl⟩
          · cases error
            cases defect
        · cases ended

/-- A stream that goes on without an error stays traced: where it waits, it goes on with a
moment of the course. -/
theorem Live.ran_traced (live : s.Live g library P) (linked : g.Linked)
    (traced : s.Traced (Program.ofGrammar g library)) (ended : s.ran.trouble? s.runMachine.2 = none) :
    s.ran.Traced (Program.ofGrammar g library) := by
  have error : s.ran.error = none := live.error
  refine .of_none error fun op pending => ?_
  by_cases passed : s.state.status = .passed
  · rw [(ran_of_passed passed).2] at pending ⊢
    exact traced.goesOn live.error op pending
  · obtain ⟨past, now, course, buffer, turn⟩ := live.ran_course linked traced passed
    cases fault : s.runMachine.2 with
    | some f =>
        rw [fault] at ended
        cases ended
    | none =>
        rw [fault] at turn
        have buffer : s.ran.buffer = now.buffer := buffer.symm
        rw [buffer]
        exact ⟨_, course.waits turn pending⟩

theorem Live.advance_traced (live : s.Live g library P) (linked : g.Linked)
    (traced : s.Traced (Program.ofGrammar g library)) :
    s.advance.1.Traced (Program.ofGrammar g library) := by
  rw [advance_eq]
  cases ended : s.ran.trouble? s.runMachine.2 with
  | some end_ => exact live.fail_traced linked traced ended
  | none => exact live.ran_traced linked traced ended

theorem Live.finish_traced (live : s.Live g library P) (linked : g.Linked)
    (traced : s.Traced (Program.ofGrammar g library)) (isClosed : s.buffer.closed = true) :
    s.finish.1.Traced (Program.ofGrammar g library) := by
  rw [live.finish_eq linked isClosed]
  cases ended : s.ran.trouble? s.runMachine.2 with
  | some end_ => exact live.fail_traced linked traced ended
  | none => exact live.ran_traced linked traced ended

theorem Traced.append {b : Buffer} {text : String} {p : Program} (traced : s.Traced p) (error : s.error = none)
    (appended : s.buffer.append text = .ok b) : ({ s with buffer := b } : Stream).Traced p := by
  refine .of_none error fun op pending => ?_
  obtain ⟨past, course⟩ := traced.goesOn error op pending
  exact ⟨past, course.text appended⟩

theorem Traced.close {p : Program} (traced : s.Traced p) (error : s.error = none) :
    ({ s with buffer := s.buffer.close } : Stream).Traced p := by
  refine .of_none error fun op pending => ?_
  obtain ⟨past, course⟩ := traced.goesOn error op pending
  exact ⟨past, course.ends⟩

/-- Streams are traced, by induction on the calls. -/
theorem Reachable.traced {parser : Parser} (program : parser.program = Program.ofGrammar g library)
    (linked : g.Linked) (reachable : Reachable parser s) : s.Traced (Program.ofGrammar g library) := by
  induction reachable with
  | start =>
      rw [Parser.stream, Stream.start, program]
      refine .of_none rfl fun op pending => ⟨[], ?_⟩
      cases pending
      exact .start parser.minBufferSize
  | whole text fits =>
      rw [Stream.start, program]
      refine .of_none rfl fun op pending => ⟨[], ?_⟩
      cases pending
      exact .whole text
  | @write s before text fits ih =>
      cases error : s.error with
      | some e =>
          rw [Stream.write, error]
          exact ih
      | none =>
          obtain ⟨P, live⟩ := (before.sane program linked).live error
          cases closed : s.buffer.closed with
          | true =>
              simp only [Stream.write, error, closed, if_true]
              exact .of_other rfl (by rintro ⟨⟩) (by rintro _ ⟨⟩) _
          | false =>
              obtain ⟨b, appended, -⟩ := Buffer.append_of_open closed text
              have fits' : (P ++ text).utf8ByteSize ≤ Buffer.maxOffset := by
                rwa [String.utf8ByteSize_append, ← live.stands.shows.length_eq]
              rw [write_eq error closed appended]
              exact (live.append closed appended fits').advance_traced linked (ih.append error appended)
  | @close s before ih =>
      cases error : s.error with
      | some e =>
          rw [Stream.close, error]
          exact ih
      | none =>
          obtain ⟨P, live⟩ := (before.sane program linked).live error
          rw [close_eq error]
          exact live.close.finish_traced linked (ih.close error) rfl

/-- What a stream runs is run at a moment of a course. -/
theorem Traced.visits {p : Program} (traced : s.Traced p) (program : s.program = p) {b : Buffer}
    (receives : s.Receives b) {op : Nat} {u : State} (visits : s.Visits b op u) :
    ∃ past, Course p past ⟨b, op, u⟩ := by
  obtain ⟨error, first, n, pending, steps⟩ := visits
  rw [program] at steps
  have begins : ∃ past, Course p past ⟨b, first, s.state.resumed⟩ := by
    rcases receives with rfl | ⟨text, -, appended⟩
    · exact (traced.close error).goesOn error first pending
    · exact (traced.append error appended).goesOn error first pending
  obtain ⟨past, course⟩ := begins
  exact course.steps steps

end Stream

/-- A call has answered with an error and left a stream. -/
inductive Parser.Fails (parser : Parser) : Stream → ParseError → Prop
  | write {s s' : Stream} {e : ParseError} {text : String} (before : Stream.Reachable parser s)
      (fits : s.buffer.length + text.utf8ByteSize ≤ Buffer.maxOffset) (failed : s.write text = (s', .error e)) :
      Fails parser s' e
  | close {s s' : Stream} {e : ParseError} (before : Stream.Reachable parser s)
      (failed : s.close = (s', .error e)) : Fails parser s' e
  | parse {e : ParseError} {text : String} (fits : text.utf8ByteSize ≤ Buffer.maxOffset)
      (failed : parser.parse text = .error e) :
      Fails parser (Stream.start parser.program (Buffer.complete text)).close.1 e

/-- The stream that a failed call leaves keeps its error. -/
theorem Parser.Fails.kept {parser : Parser} {s : Stream} {e : ParseError} (fails : parser.Fails s e) :
    Stream.Reachable parser s ∧ s.error = some e := by
  cases fails with
  | @write s s' e text before fits failed =>
      have reachable := before.write text fits
      rw [failed] at reachable
      exact ⟨reachable, Stream.error_of_write failed⟩
  | @close s s' e before failed =>
      have reachable := before.close
      rw [failed] at reachable
      exact ⟨reachable, Stream.error_of_close failed⟩
  | @parse e text fits failed =>
      rw [parse_eq_close] at failed
      exact ⟨(Stream.Reachable.whole text fits).close, Stream.error_of_close (Prod.ext rfl failed)⟩

end PegFlow
