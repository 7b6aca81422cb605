/-
# PegFlow.Proofs.Stream.Reachable -- the streams of a parser

`Stream.Reachable` are the streams that a parser starts, whatever is written to them and
however often they are closed. Each of them is live or has stopped at an error
(`Stream.Reachable.sane`), and every op that is run over what it receives finds all that it
reads: indices in range, stacks that are not empty, and offsets on boundaries of the text so
far (`Stream.Sane.inRange`).
-/
import PegFlow.Grammar.Build
import PegFlow.Proofs.Stream.Advance

namespace PegFlow

set_option autoImplicit false

open Text Machine

namespace Stream

/-- The streams of a parser, those that hold a whole text among them. -/
inductive Reachable (parser : Parser) : Stream → Prop
  | start : Reachable parser parser.stream
  | whole (text : String) (fits : text.utf8ByteSize ≤ Buffer.maxOffset) :
      Reachable parser (.start parser.program (Buffer.complete text))
  | write {s : Stream} (before : Reachable parser s) (text : String)
      (fits : s.buffer.length + text.utf8ByteSize ≤ Buffer.maxOffset) :
      Reachable parser (s.write text).1
  | close {s : Stream} (before : Reachable parser s) : Reachable parser s.close.1

/-- The stream is live, or it has stopped at an error, over a text that is not too long. -/
def Sane (g : AnnotatedGrammar) (library : Library) (s : Stream) : Prop :=
  (∃ P, s.Live g library P) ∨
    ((∃ P, s.buffer.Shows P ∧ P.utf8ByteSize ≤ Buffer.maxOffset) ∧ s.error ≠ none)

variable {g : AnnotatedGrammar} {library : Library} {P : String} {s : Stream}

theorem Live.fail_sane {α : Type} (live : s.Live g library P) (f : Fault) (p : Nat) (t : State) :
    (({ s with state := t } : Stream).fail f p : Stream × Except ParseError α).1.Sane g library :=
  Or.inr ⟨⟨P, live.stands.shows, live.stands.fits⟩, nofun⟩

theorem Live.advance_sane (live : s.Live g library P) (linked : g.Linked) : s.advance.1.Sane g library := by
  rw [advance_eq]
  cases h : s.ran.trouble? s.runMachine.2 with
  | some end_ => exact live.fail_sane end_.1 end_.2 _
  | none => exact Or.inl ⟨P, (live.goesOn linked h).1⟩

theorem Live.finish_sane (live : s.Live g library P) (linked : g.Linked) (isClosed : s.buffer.closed = true) :
    s.finish.1.Sane g library := by
  rw [live.finish_eq linked isClosed]
  cases h : s.ran.trouble? s.runMachine.2 with
  | some end_ => exact live.fail_sane end_.1 end_.2 _
  | none => exact Or.inl ⟨P, (live.goesOn linked h).1⟩

theorem Sane.live (sane : s.Sane g library) (error : s.error = none) : ∃ P, s.Live g library P :=
  sane.resolve_right fun stopped => stopped.2 error

theorem Sane.length_le (sane : s.Sane g library) : s.buffer.length ≤ Buffer.maxOffset := by
  rcases sane with ⟨P, live⟩ | ⟨⟨P, shows, fits⟩, -⟩
  · exact live.stands.shows.length_eq ▸ live.stands.fits
  · exact shows.length_eq ▸ fits

theorem Sane.write (sane : s.Sane g library) (linked : g.Linked) {text : String}
    (fits : s.buffer.length + text.utf8ByteSize ≤ Buffer.maxOffset) : (s.write text).1.Sane g library := by
  cases error : s.error with
  | some e =>
      rw [Stream.write, error]
      exact sane
  | none =>
      obtain ⟨P, live⟩ := sane.live error
      cases closed : s.buffer.closed with
      | true =>
          simp only [Stream.write, error, closed, if_true]
          exact live.fail_sane _ _ s.state
      | false =>
          obtain ⟨b, appended, -⟩ := Buffer.append_of_open closed text
          have fits' : (P ++ text).utf8ByteSize ≤ Buffer.maxOffset := by
            rwa [String.utf8ByteSize_append, ← live.stands.shows.length_eq]
          rw [write_eq error closed appended]
          exact (live.append closed appended fits').advance_sane linked

theorem Sane.close (sane : s.Sane g library) (linked : g.Linked) : s.close.1.Sane g library := by
  cases error : s.error with
  | some e =>
      rw [Stream.close, error]
      exact sane
  | none =>
      obtain ⟨P, live⟩ := sane.live error
      rw [close_eq error]
      exact live.close.finish_sane linked rfl

/-- What the buffer of a stream becomes by a call. -/
def Receives (s : Stream) (b : Buffer) : Prop :=
  b = s.buffer.close ∨ ∃ text, s.buffer.length + text.utf8ByteSize ≤ Buffer.maxOffset ∧
    s.buffer.append text = .ok b

/-- The op is run in the state when the stream goes on over a buffer. -/
def Visits (s : Stream) (b : Buffer) (op : Nat) (u : State) : Prop :=
  s.error = none ∧ ∃ first n, s.state.pending = some first ∧
    Steps s.program b n first s.state.resumed op u

/-- Every op that is run finds all that it reads. -/
theorem Live.inRange (live : s.Live g library P) (linked : g.Linked) {op : Nat} {u : State}
    (visits : s.Visits s.buffer op u) : InRange s.program P op u := by
  obtain ⟨-, first, n, pending, steps⟩ := visits
  have stands := live.stands
  rw [live.program] at steps ⊢
  generalize s.state = t at stands pending steps
  cases stands with
  | goesOn pending' status follows =>
      cases pending'.symm.trans pending
      exact (follows.steps linked steps).inRange linked
  | accepted accept idle status follows => cases idle.symm.trans pending

theorem Sane.inRange (sane : s.Sane g library) (linked : g.Linked) {b : Buffer} (receives : s.Receives b) :
    ∃ P, b.Shows P ∧ ∀ op u, s.Visits b op u → InRange s.program P op u := by
  rcases sane with ⟨P, live⟩ | ⟨⟨P, shows, -⟩, error⟩
  · rcases receives with rfl | ⟨text, fits, appended⟩
    · exact ⟨P, live.close.stands.shows, fun op u visits => live.close.inRange linked visits⟩
    · have isOpen : s.buffer.closed = false := Buffer.isOpen_of_append appended
      have fits' : (P ++ text).utf8ByteSize ≤ Buffer.maxOffset := by
        rwa [String.utf8ByteSize_append, ← live.stands.shows.length_eq]
      have later := live.append isOpen appended fits'
      exact ⟨P ++ text, later.stands.shows, fun op u visits => later.inRange linked visits⟩
  · have stopped : ∀ op u, ¬ s.Visits b op u := fun op u visits => error visits.1
    rcases receives with rfl | ⟨text, fits, appended⟩
    · exact ⟨P, shows.close, fun op u visits => (stopped op u visits).elim⟩
    · obtain ⟨b', appended', -, -, shows'⟩ :=
        Buffer.append_of_open (Buffer.isOpen_of_append appended) text
      cases appended.symm.trans appended'
      exact ⟨P ++ text, shows' P shows, fun op u visits => (stopped op u visits).elim⟩

end Stream

/-- A parser runs the program of a grammar whose annotations are linked and whose templates
are configured. -/
theorem Parser.ofGrammar?_made {g : Grammar} {config : ParserConfig} {parser : Parser}
    (made : ofGrammar? g config = .ok parser) :
    ∃ library, parser.program = Program.ofGrammar parser.grammar library ∧ parser.grammar.Linked ∧
      (Program.ofGrammar parser.grammar library).Configured ∧
      parser.minBufferSize = config.minBufferSize := by
  obtain ⟨grammar, annotated, made⟩ := Except.bind_eq_ok made
  obtain ⟨constants, -, made⟩ := Except.bind_eq_ok made
  cases made
  exact ⟨{ constants, callbacks := config.callbacks }, rfl, Grammar.annotate?_linked annotated,
    Program.ofGrammar_configured annotated, rfl⟩

theorem Parser.stream_live {g : AnnotatedGrammar} {library : Library} {parser : Parser}
    (program : parser.program = Program.ofGrammar g library) : parser.stream.Live g library "" := by
  refine ⟨program, rfl, ?_⟩
  rw [stream, Stream.start, program]
  exact .start g library parser.minBufferSize

theorem Stream.Reachable.sane {g : AnnotatedGrammar} {library : Library} {parser : Parser} {s : Stream}
    (program : parser.program = Program.ofGrammar g library) (linked : g.Linked)
    (reachable : Reachable parser s) : s.Sane g library := by
  induction reachable with
  | start => exact Or.inl ⟨"", Parser.stream_live program⟩
  | whole text fits =>
      refine Or.inl ⟨text, program, rfl, ?_⟩
      rw [Stream.start, program]
      exact .whole g library fits
  | write _ text fits ih => exact ih.write linked fits
  | close _ ih => exact ih.close linked

theorem Buffer.close_complete (text : String) : (complete text).close = complete text := by
  rw [close, ← complete_closed text]

/-- Parsing a whole text is closing a stream that holds it. -/
theorem Parser.parse_eq_close (parser : Parser) (text : String) :
    parser.parse text = (Stream.start parser.program (Buffer.complete text)).close.2 := by
  rw [Stream.close_eq rfl, parse]
  exact congrArg (fun b => (Stream.start parser.program b).finish.2) (Buffer.close_complete text).symm

/-- Sums of digits, left recursive; a host function makes the value of a sum. -/
def Grammar.computed : Grammar :=
  Grammar.empty.addRuleset "return"
    [.ofPatterns [.ofTokens [.captureRef "return", .literal "+", .capture [.ofTokens [.charClass "0-9"]]]]
      (some (.call "add" [.back 1, .back 2])), .ofPatterns [.ofTokens [.charClass "0-9"]] none]

/-- A host function that puts its arguments together, and so many octets kept. -/
def ParserConfig.adding (kept : Nat) : ParserConfig :=
  { minBufferSize := kept, callbacks := [("add", fun args => .ok (.array args))] }

end PegFlow
