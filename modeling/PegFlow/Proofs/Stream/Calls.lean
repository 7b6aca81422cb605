/-
# PegFlow.Proofs.Stream.Calls -- what the calls of a stream answer, one after the other

Whatever is written to a stream and however often it is closed, its answers keep one order
(`Stream.Reachable.calls_lawful`). A write answers that the grammar has matched up to the end
of the text, or that it waits; the first error is the answer to everything after it, and the
stream is never touched again (`Stream.Over`); a stream that was closed with a value gives
that value again, and takes no more text.

Once the machine has accepted, the grammar matches at the same place with the same value
whatever text is still to come (`Stream.Live.matched`).
-/
import PegFlow.Proofs.Machine.Visit
import PegFlow.Proofs.Meaning.Agreement
import PegFlow.Proofs.Stream.Suspended

namespace PegFlow

set_option autoImplicit false

open Text Machine

namespace Stream

/-- The streams that calls lead to from here. -/
inductive Later (s : Stream) : Stream → Prop
  | now : Later s s
  | write {t : Stream} (before : Later s t) (text : String) : Later s (t.write text).1
  | close {t : Stream} (before : Later s t) : Later s t.close.1

/-- The error is the answer to every call from here on, and none of them changes the
stream. -/
def Over (s : Stream) (e : ParseError) : Prop :=
  ∀ t, s.Later t → t = s ∧ (∀ text, t.write text = (s, .error e)) ∧ t.close = (s, .error e)

/-- The machine has accepted, and the grammar matches at the position of the stream, with the
output of the machine, whatever text is still to come. -/
structure Matched (g : AnnotatedGrammar) (s : Stream) : Prop where
  accepted : s.state.status = .passed
  means : ∃ P v, s.buffer.Shows P ∧ s.state.output = some v ∧
    ∀ more, (s.buffer.closed = true → more = "") → (P ++ more).utf8ByteSize ≤ Buffer.maxOffset →
      ∃ again, g.meaning s.program.library (P ++ more) = .pass s.position v again

variable {s s' : Stream} {e : ParseError}

/-- An error that a stream has met is the answer to every call, by induction on the calls. -/
theorem over_of_error (error : s.error = some e) : s.Over e := by
  have calls : (∀ text, s.write text = (s, .error e)) ∧ s.close = (s, .error e) := by
    constructor
    · intro text
      simp only [Stream.write, error]
    · simp only [Stream.close, error]
  intro t later
  have same : t = s := by
    induction later with
    | now => rfl
    | write before text ih =>
        rw [ih, calls.1 text]
    | close before ih =>
        rw [ih, calls.2]
  rw [same]
  exact ⟨rfl, calls⟩

theorem error_of_fail {α : Type} {f : Fault} {p : Nat}
    (failed : (s.fail f p : Stream × Except ParseError α) = (s', .error e)) : s'.error = some e := by
  cases failed
  rfl

theorem error_of_advance (failed : s.advance = (s', .error e)) : s'.error = some e := by
  rw [advance_eq] at failed
  split at failed
  · exact error_of_fail failed
  · cases failed

theorem error_of_finish (failed : s.finish = (s', .error e)) : s'.error = some e := by
  rw [finish] at failed
  split at failed
  · rename_i advanced
    cases failed
    exact error_of_advance advanced
  · cases failed
  · exact error_of_fail failed

theorem error_of_write {text : String} (failed : s.write text = (s', .error e)) :
    s'.error = some e := by
  rw [Stream.write] at failed
  split at failed
  · rename_i error
    cases failed
    exact error
  · split at failed
    · exact error_of_fail failed
    · split at failed
      · exact error_of_advance failed
      · exact error_of_fail failed

theorem error_of_close (failed : s.close = (s', .error e)) : s'.error = some e := by
  rw [Stream.close] at failed
  split at failed
  · rename_i error
    cases failed
    exact error
  · exact error_of_finish failed

/-- A call that does not fail finds a stream without an error. -/
theorem no_error_of_write {text : String} {status : Status} (wrote : s.write text = (s', .ok status)) :
    s.error = none ∧ s.buffer.closed = false := by
  rw [Stream.write] at wrote
  split at wrote
  · cases wrote
  · rename_i error
    refine ⟨error, ?_⟩
    split at wrote
    · cases wrote
    · rename_i isOpen
      simpa using isOpen

theorem no_error_of_close {v : Value} (closed : s.close = (s', .ok v)) : s.error = none := by
  rw [Stream.close] at closed
  split at closed
  · cases closed
  · rename_i error
    exact error

/-- A closed stream takes no text. -/
theorem write_of_closed (error : s.error = none) (isClosed : s.buffer.closed = true) (text : String) :
    ∃ e, s.write text = ({ s with error := some e }, .error e) ∧ e.fault = .writeAfterClose ∧
      e.position = s.buffer.length := by
  refine ⟨s.errorAt .writeAfterClose s.buffer.length, ?_, rfl, rfl⟩
  simp only [Stream.write, error, isClosed, if_true, fail]

/-- A stream whose machine has accepted stays as it is when it runs again. -/
theorem ran_of_passed (passed : s.state.status = .passed) : s.runMachine = (s.state, none) ∧ s.ran = s := by
  have idle : s.runMachine = (s.state, none) := by
    rw [runMachine, passed]
  refine ⟨idle, ?_⟩
  rw [ran, idle]

section

variable {g : AnnotatedGrammar} {library : Library} {P : String}

/-- A run that nothing ends has accepted, or it waits for text that may come. -/
theorem Live.passed_or_waiting (live : s.Live g library P) (linked : g.Linked)
    (ended : s.ran.trouble? s.runMachine.2 = none) :
    s.ran.state.status = .passed ∨ s.ran.state.status = .waiting := by
  have settles := live.settles linked
  cases fault : s.runMachine.2 with
  | some f =>
      rw [fault] at ended
      cases ended
  | none =>
      rw [fault] at ended settles
      rcases settles.stands linked with ⟨-, waiting, -⟩ | ⟨passed, -⟩ | failed
      · exact Or.inr waiting
      · exact Or.inl passed
      · rw [trouble?, failed] at ended
        cases ended

/-- A machine that has accepted has come to the end of the program along with the runs over
whole texts. -/
theorem Live.accepted (live : s.Live g library P) (passed : s.state.status = .passed) :
    ∃ op u, (Program.ofGrammar g library).ops[op]? = some .accept ∧
      Follows g library s.buffer P op u ∧ s.state = u.accepted := by
  have stands := live.stands
  generalize s.state = t at stands passed
  cases stands with
  | goesOn pending status follows =>
      rcases status with status | status
      · cases status.symm.trans passed
      · cases status.symm.trans passed
  | accepted accept pending status follows => exact ⟨_, _, accept, follows, rfl⟩

/-- Once the machine has accepted the grammar has matched: the machine takes the same way over
every whole text that begins with the text so far. -/
theorem Live.matched (live : s.Live g library P) (linked : g.Linked)
    (passed : s.state.status = .passed) : s.Matched g := by
  obtain ⟨op, u, accept, follows, state⟩ := live.accepted passed
  refine ⟨passed, P, u.result.getD .null, follows.shows, by rw [state]; rfl, fun more ended fits => ?_⟩
  have given : run (Program.ofGrammar g library) (Buffer.complete (P ++ more))
      (State.start (Program.ofGrammar g library)) = (u.accepted, none) := by
    rw [AnnotatedGrammar.run_eq_settle, (follows.path more ended fits).settle_eq, State.settle,
      step_accept accept]
  have ends := (AnnotatedGrammar.run_ends linked fits given).resolve_left fun overflows => by cases overflows.2
  rw [position, state, live.program]
  show ∃ again, g.meaning library (P ++ more) = .pass u.accepted.pos (u.result.getD .null) again
  cases meaning : g.meaning library (P ++ more) with
  | pass stop v again =>
      rw [meaning] at ends
      obtain ⟨-, -, output, stop⟩ := ends
      have value : u.result.getD .null = v := Option.some_inj.1 output
      rw [stop, value]
      exact ⟨again, rfl⟩
  | fail again =>
      rw [meaning] at ends
      cases ends.2
  | error f =>
      rw [meaning] at ends
      cases ends
  | deep =>
      rw [meaning] at ends
      exact ends.elim

/-- A machine that has accepted is within the text so far. -/
theorem Live.position_le (live : s.Live g library P) (passed : s.state.status = .passed) :
    s.position ≤ s.buffer.length := by
  obtain ⟨op, u, accept, follows, state⟩ := live.accepted passed
  have path := follows.path "" (fun _ => rfl) follows.fits_whole
  rw [String.append_empty] at path
  have visited := path.visited (Program.ofGrammar_closed g library) (Program.size_entries g library)
    (g.first_visited library P)
  rw [position, state, follows.shows.length_eq]
  exact visited.aligned.pos.le

/-- A run that goes on without an error answers that the grammar has matched up to the end of
the text, or that it waits. -/
theorem Live.advance_status (live : s.Live g library P) (linked : g.Linked)
    (isOpen : s.buffer.closed = false) {status : Status} (advanced : s.advance = (s', .ok status)) :
    (status = .passed ∨ status = .waiting) ∧
      (status = .passed ↔ s'.Matched g ∧ s'.position = s'.buffer.length) := by
  rw [advance_eq] at advanced
  cases ended : s.ran.trouble? s.runMachine.2 with
  | some end_ =>
      rw [ended] at advanced
      cases advanced
  | none =>
      rw [ended] at advanced
      cases advanced
      have onward := (live.goesOn linked ended).1
      have isOpen : s.ran.buffer.closed = false := isOpen
      rcases live.passed_or_waiting linked ended with passed | waiting
      · have matched := onward.matched linked passed
        have le := onward.position_le passed
        by_cases left : s.ran.position < s.ran.buffer.length
        · have waits : s.ran.status = .waiting := by simp [Stream.status, passed, left, isOpen]
          rw [waits]
          refine ⟨Or.inr rfl, ⟨fun h => (by cases h), fun h => ?_⟩⟩
          have := h.2
          omega
        · have passes : s.ran.status = .passed := by simp [Stream.status, passed, left]
          rw [passes]
          exact ⟨Or.inl rfl, ⟨fun _ => ⟨matched, by omega⟩, fun _ => rfl⟩⟩
      · have waits : s.ran.status = .waiting := by simp [Stream.status, waiting]
        rw [waits]
        refine ⟨Or.inr rfl, ⟨fun h => (by cases h), fun h => ?_⟩⟩
        cases waiting.symm.trans h.1.accepted

/-- A stream that ended with a value has accepted at the end of its text, and ends so again. -/
theorem Live.close_again (live : s.Live g library P) (linked : g.Linked) {v : Value}
    (closed : s.close = (s', .ok v)) :
    s'.error = none ∧ s'.buffer.closed = true ∧ s'.close = (s', .ok v) := by
  have isClosed : ({ s with buffer := s.buffer.close } : Stream).buffer.closed = true := rfl
  have later := live.close
  rw [close_eq live.error, later.finish_eq linked isClosed] at closed
  generalize ({ s with buffer := s.buffer.close } : Stream) = w at closed isClosed later
  cases ended : w.ran.trouble? w.runMachine.2 with
  | some end_ =>
      rw [ended] at closed
      cases closed
  | none =>
      rw [ended] at closed
      cases closed
      have onward := later.goesOn linked ended
      have passed : w.ran.state.status = .passed := by
        rcases later.passed_or_waiting linked ended with passed | waiting
        · exact passed
        · have passes := onward.2 isClosed
          rw [Stream.status, waiting] at passes
          simp at passes
      have isClosed' : w.ran.buffer.closed = true := isClosed
      refine ⟨onward.1.error, isClosed', ?_⟩
      have same : ({ w.ran with buffer := w.ran.buffer.close } : Stream) = w.ran := by
        rw [Buffer.close, ← isClosed']
      obtain ⟨idle, ran⟩ := ran_of_passed passed
      have none : w.runMachine.2 = none := by
        cases fault : w.runMachine.2 with
        | none => rfl
        | some f =>
            rw [fault] at ended
            cases ended
      rw [close_eq onward.1.error, same, onward.1.finish_eq linked isClosed', ran, idle]
      rw [none] at ended
      rw [ended]

end

/-- The calls of a stream keep one order. The first error is the answer to all that follows and
nothing changes after it. A write without an error answers that the grammar has matched up to
the end of the text, or that the stream waits. Once closed with a value a stream gives it again,
and the next write fails and leaves the buffer as it is. -/
theorem Reachable.calls_lawful {g : Grammar} {config : ParserConfig} {parser : Parser}
    (made : Parser.ofGrammar? g config = .ok parser) (reachable : Reachable parser s) :
    (∀ text s' e, s.write text = (s', .error e) → s'.Over e) ∧
    (∀ s' e, s.close = (s', .error e) → s'.Over e) ∧
    (∀ text s' status, s.buffer.length + text.utf8ByteSize ≤ Buffer.maxOffset →
      s.write text = (s', .ok status) →
      (status = .passed ∨ status = .waiting) ∧
        (status = .passed ↔ s'.Matched parser.grammar ∧ s'.position = s'.buffer.length)) ∧
    (∀ s' v, s.close = (s', .ok v) →
      s'.close = (s', .ok v) ∧
        ∀ text, ∃ e, s'.write text = ({ s' with error := some e }, .error e) ∧
          e.fault = .writeAfterClose ∧ e.position = s'.buffer.length) := by
  obtain ⟨library, program, linked, -⟩ := Parser.ofGrammar?_made made
  have sane := reachable.sane program linked
  refine ⟨?_, ?_, ?_, ?_⟩
  · intro text s' e failed
    exact over_of_error (error_of_write failed)
  · intro s' e failed
    exact over_of_error (error_of_close failed)
  · intro text s' status fits wrote
    obtain ⟨error, isOpen⟩ := no_error_of_write wrote
    obtain ⟨P, live⟩ := sane.live error
    obtain ⟨b, appended, isOpen', -⟩ := Buffer.append_of_open isOpen text
    have fits' : (P ++ text).utf8ByteSize ≤ Buffer.maxOffset := by
      rwa [String.utf8ByteSize_append, ← live.stands.shows.length_eq]
    rw [write_eq error isOpen appended] at wrote
    exact (live.append isOpen appended fits').advance_status linked isOpen' wrote
  · intro s' v closed
    obtain ⟨P, live⟩ := sane.live (no_error_of_close closed)
    obtain ⟨error, isClosed, again⟩ := live.close_again linked closed
    exact ⟨again, write_of_closed error isClosed⟩

/-- A word that comes whole: the write answers that the grammar has matched, closing gives the
word twice, and a further write fails and is the end. -/
theorem Reachable.calls_lawful_of_word :
    ∃ parser s s' e, Parser.ofGrammar? Grammar.greeting { minBufferSize := 3 } = .ok parser ∧
      Reachable parser parser.stream ∧ parser.stream.write "hello!" = (s, .ok .passed) ∧
      s.Matched parser.grammar ∧ s.position = s.buffer.length ∧
      s.close = (s', .ok (.string "hello!")) ∧ s'.close = (s', .ok (.string "hello!")) ∧
      s'.write "!" = ({ s' with error := some e }, .error e) ∧ e.fault = .writeAfterClose ∧
      ({ s' with error := some e } : Stream).Over e := by
  obtain ⟨parser, made, ops, entries, root, terminals, window⟩ := Grammar.greeting_compiles
  obtain ⟨r, rule, plain⟩ : ∃ r, parser.program.rules[0]? = some r ∧ r.template = none := by
    have first : (Parser.ofGrammar? Grammar.greeting { minBufferSize := 3 }).toOption.bind (fun p =>
        p.program.rules[0]?.map fun r => r.template.isNone) = some true := by decide +kernel
    rw [made] at first
    obtain ⟨r, found, none⟩ := Option.map_eq_some_iff.1 first
    exact ⟨r, found, Option.isNone_iff_eq_none.1 none⟩
  let word : Buffer := { minRetained := 3, chunks := [⟨0, "hello!"⟩], length := 6 }
  have appended : parser.stream.buffer.append "hello!" = .ok word := by
    rw [Parser.stream, window]
    show (Buffer.empty 3).append "hello!" = .ok word
    decide
  let frame : Frame := { ruleset := 0, pass := 4, fail := 5, start := 0, captureBase := 0 }
  let done : State := { pos := 6, result := some (.string "hello!") }
  have ran : Machine.run parser.program word parser.stream.state = (done.accepted, none) := by
    have pending : parser.stream.state.pending = some 6 := congrArg some root
    have called : step parser.program word 6 parser.stream.state.resumed =
        .next 3 { frames := [frame] } := by
      simp [step, ops, State.call, entries, frame, Parser.stream, Stream.start, State.start, State.resumed]
    have tested : step parser.program word 3 { frames := [frame] } = .next 2 { pos := 6, frames := [frame] } := by
      have found : (Terminal.literal "hello!").matchAt word 0 = .ok (some 6) := by decide +kernel
      simp [step, ops, State.testTerminal, terminals, found]
    have given : step parser.program word 2 { pos := 6, frames := [frame] } =
        .next 0 { done with frames := [frame] } := by
      have text : word.substrExact 0 6 = .ok "hello!" := by decide +kernel
      simp [step, ops, State.giveOutput, rule, plain, State.ruleOutput, Scope.matchedText, State.scope,
        State.keepCaptures, text, done, frame]
    have left : step parser.program word 0 { done with frames := [frame] } = .next 4 done := by
      simp [step, ops, State.leave, done, frame]
    have accept : step parser.program word 4 done = .halt done.accepted := by
      simp [step, ops, State.accepted]
    exact (Executes.halts pending
      (.more called (.more tested (.more given (.more left (.stay 4 done))))) accept).run_eq
  let s : Stream := { parser.stream with buffer := word, state := done.accepted }
  have write : parser.stream.write "hello!" = (s, .ok .passed) := by
    have run : ({ parser.stream with buffer := word } : Stream).runMachine = (done.accepted, none) := ran
    rw [Stream.write_eq rfl rfl appended, Stream.advance_eq, Stream.ran, run]
    rfl
  let s' : Stream := { s with buffer := word.close }
  have close : s.close = (s', .ok (.string "hello!")) := rfl
  have begun : Reachable parser parser.stream := .start
  have reachable : Reachable parser s := by
    have after := begun.write "hello!" (by show 0 + 6 ≤ _; decide)
    rwa [write] at after
  have reachable' : Reachable parser s' := by
    have after := reachable.close
    rwa [close] at after
  have passed := ((begun.calls_lawful made).2.2.1 "hello!" s .passed (by show 0 + 6 ≤ _; decide) write).2.1 rfl
  obtain ⟨again, refused⟩ := (reachable.calls_lawful made).2.2.2 s' _ close
  obtain ⟨e, wrote, fault, -⟩ := refused "!"
  have ended := (reachable'.calls_lawful made).1 "!" _ e wrote
  exact ⟨parser, s, s', e, made, begun, write, passed.1, passed.2, close, again, wrote, fault, ended⟩

end Stream

end PegFlow
