/-
# PegFlow.Proofs.Stream.Suspended -- a parse that waits for text

A parse waits at a terminal that needs more text than there is. The next write may let go
of the text in front of that terminal, and then the terminal cannot be resumed: what counts
is how much lies behind the chunk in which the terminal begins, the new text included
(`Stream.Reachable.resumes_iff`). That at most as much as the window was buffered from
there on does not save it.
-/
import PegFlow.Proofs.Buffer.Reads
import PegFlow.Proofs.Buffer.Retained
import PegFlow.Proofs.Machine.Control
import PegFlow.Proofs.Stream.Reachable

namespace PegFlow

set_option autoImplicit false

open Text Machine

theorem Terminal.start_le_of_needInput {t : Terminal} {b : Buffer} {p : Nat}
    (needs : t.matchAt b p = .error .needInput) : b.start ≤ p := by
  by_contra below
  cases (t.matchAt_freed (Nat.lt_of_not_le below)).symm.trans needs

/-- A test of a terminal asks for text that was let go exactly below the window. -/
theorem Terminal.readFreed_iff {t : Terminal} {b : Buffer} {T : String} {p : Nat} (shows : b.Shows T)
    (boundary : IsBoundary T p) : ReadFreed (t.matchAt b p) ↔ p < b.start := by
  constructor
  · rintro ⟨offset, retainedFrom, freed⟩
    by_contra above
    have agrees := t.matchAt_agrees shows (Nat.le_of_not_lt above) boundary (fun _ => rfl)
    rw [freed] at agrees
    rcases agrees with h | ⟨h, -⟩ | ⟨h, -⟩ <;> cases h
  · intro below
    exact ⟨p, b.start, t.matchAt_freed below⟩

/-- A step after which the machine waits is the test of a terminal that needs more text. -/
theorem Machine.step_waits {p : Program} {b : Buffer} {op : Nat} {s t : State}
    (halt : step p b op s = .halt t) (waiting : t.status = .waiting) :
    ∃ id pass fail terminal, p.ops[op]? = some (.terminal id pass fail) ∧
      p.terminals[id]? = some terminal ∧ terminal.matchAt b s.pos = .error .needInput ∧
      t = s.waitingAt op := by
  have goes := step_goes p b op s
  rw [halt] at goes
  cases goes with
  | waits held found needs => exact ⟨_, _, _, _, held, found, needs, rfl⟩
  | accepts => cases waiting
  | rejects => cases waiting

namespace Stream

/-- The stream has stopped at a terminal that needs more text. -/
structure Suspended (s : Stream) (t : Terminal) : Prop where
  isOpen : s.buffer.closed = false
  pending : ∃ op id pass fail, s.state.pending = some op ∧
    s.program.ops[op]? = some (.terminal id pass fail) ∧ s.program.terminals[id]? = some t
  needs : t.matchAt s.buffer s.position = .error .needInput

variable {g : AnnotatedGrammar} {library : Library} {P : String} {s : Stream}

/-- A stream that waits after its machine has run is suspended at a terminal. -/
theorem Live.suspended (live : s.Live g library P) (linked : g.Linked)
    (ended : s.ran.trouble? s.runMachine.2 = none) (waiting : s.ran.state.status = .waiting) :
    ∃ t, s.ran.Suspended t := by
  have settles := live.settles linked
  have running : s.buffer.closed = false := by
    cases closed : s.buffer.closed with
    | false => rfl
    | true =>
        have passed := (live.goesOn linked ended).2 closed
        rw [status, waiting] at passed
        simp at passed
  cases fault : s.runMachine.2 with
  | some f =>
      rw [fault] at ended
      cases ended
  | none =>
      rw [fault] at settles
      obtain @⟨op, u, -, -, -, halt⟩ := settles
      obtain ⟨id, pass, fail, t, held, found, needs, eq⟩ := step_waits halt waiting
      rw [← live.program] at held found
      refine ⟨t, running, ⟨op, id, pass, fail, ?_, held, found⟩, ?_⟩
      · rw [eq]
        rfl
      · rw [position, eq]
        exact needs

/-- After it has gone on without an error, a stream that waits is suspended at a terminal. -/
theorem Live.advance_suspended (live : s.Live g library P) (linked : g.Linked)
    (error : s.advance.1.error = none) (waiting : s.advance.1.state.status = .waiting) :
    ∃ t, s.advance.1.Suspended t := by
  rw [advance_eq] at error waiting ⊢
  cases ended : s.ran.trouble? s.runMachine.2 with
  | some end_ =>
      rw [ended] at error
      cases error
  | none =>
      rw [ended] at waiting
      exact live.suspended linked ended waiting

theorem advance_buffer (s : Stream) : s.advance.1.buffer = s.buffer := by
  rw [advance_eq]
  cases s.ran.trouble? s.runMachine.2 <;> rfl

theorem finish_buffer (s : Stream) : s.finish.1.buffer = s.buffer := by
  rw [finish, ← advance_buffer s]
  split <;> simp_all [fail]

/-- What a write leaves in the buffer of a stream. -/
theorem write_buffer (s : Stream) (text : String) :
    (s.write text).1.buffer = s.buffer ∨ s.buffer.append text = .ok (s.write text).1.buffer := by
  cases error : s.error with
  | some e =>
      rw [Stream.write, error]
      exact Or.inl rfl
  | none =>
      cases closed : s.buffer.closed with
      | true =>
          simp only [Stream.write, error, closed, if_true]
          exact Or.inl rfl
      | false =>
          obtain ⟨b, appended, -⟩ := Buffer.append_of_open closed text
          rw [write_eq error closed appended, advance_buffer]
          exact Or.inr appended

theorem close_buffer (s : Stream) : s.close.1.buffer = s.buffer ∨ s.close.1.buffer = s.buffer.close := by
  cases error : s.error with
  | some e =>
      rw [Stream.close, error]
      exact Or.inl rfl
  | none =>
      rw [close_eq error, finish_buffer]
      exact Or.inr rfl

/-- A stream keeps as much as its parser says, as long as text may come. -/
theorem Reachable.minRetained {parser : Parser} (reachable : Reachable parser s)
    (isOpen : s.buffer.closed = false) : s.buffer.minRetained = parser.minBufferSize := by
  induction reachable with
  | start => rfl
  | whole text fits => cases (Buffer.complete_closed text).symm.trans isOpen
  | @write s before text fits ih =>
      rcases s.write_buffer text with same | appended
      · rw [same] at isOpen ⊢
        exact ih isOpen
      · have wasOpen := Buffer.isOpen_of_append appended
        obtain ⟨b, appended', -, kept, -⟩ := Buffer.append_of_open wasOpen text
        cases appended.symm.trans appended'
        exact kept.trans (ih wasOpen)
  | @close s before ih =>
      rcases s.close_buffer with same | closed
      · rw [same] at isOpen ⊢
        exact ih isOpen
      · rw [closed] at isOpen
        cases isOpen

/-- A stream that waits for text, and has met no error, is suspended at a terminal. -/
theorem Reachable.suspended {parser : Parser} (program : parser.program = Program.ofGrammar g library)
    (linked : g.Linked) (reachable : Reachable parser s) (error : s.error = none) (waiting : s.state.status = .waiting) :
    ∃ t, s.Suspended t := by
  cases reachable with
  | start => cases waiting
  | whole text fits => cases waiting
  | @write s before text fits =>
      cases noError : s.error with
      | some e =>
          rw [Stream.write, noError] at error
          cases noError.symm.trans error
      | none =>
          obtain ⟨P, live⟩ := (before.sane program linked).live noError
          cases closed : s.buffer.closed with
          | true =>
              simp only [Stream.write, noError, closed, if_true, fail] at error
              cases error
          | false =>
              obtain ⟨b, appended, -⟩ := Buffer.append_of_open closed text
              have fits' : (P ++ text).utf8ByteSize ≤ Buffer.maxOffset := by
                rwa [String.utf8ByteSize_append, ← live.stands.shows.length_eq]
              rw [write_eq noError closed appended] at error waiting ⊢
              exact (live.append closed appended fits').advance_suspended linked error waiting
  | @close s before =>
      cases noError : s.error with
      | some e =>
          rw [Stream.close, noError] at error
          cases noError.symm.trans error
      | none =>
          obtain ⟨P, live⟩ := (before.sane program linked).live noError
          rw [close_eq noError, live.close.finish_eq linked rfl] at error waiting
          cases ended : ({ s with buffer := s.buffer.close } : Stream).ran.trouble?
              ({ s with buffer := s.buffer.close } : Stream).runMachine.2 with
          | some end_ =>
              rw [ended] at error
              cases error
          | none =>
              rw [ended] at waiting
              have passed := (live.close.goesOn linked ended).2 rfl
              rw [status, waiting] at passed
              simp at passed

/-- A write leaves the text in front of a suspended terminal readable, so that the terminal can
be resumed, exactly when it brings no text, when the terminal begins where the new text does,
or when less than the window lies behind the chunk in which the terminal begins, the new text
included. -/
theorem Reachable.resumes_iff {g : Grammar} {config : ParserConfig} {parser : Parser}
    (made : Parser.ofGrammar? g config = .ok parser) (reachable : Reachable parser s)
    (error : s.error = none) (waiting : s.state.status = .waiting) {text : String} {b : Buffer}
    (appended : s.buffer.append text = .ok b) :
    ∃ t, s.Suspended t ∧
      (b.start ≤ s.position ↔ text = "" ∨ s.position = s.buffer.length ∨
        s.buffer.behind s.position + text.utf8ByteSize < config.minBufferSize) ∧
      (ReadFreed (t.matchAt b s.position) ↔ ¬ b.start ≤ s.position) := by
  obtain ⟨library, program, linked, -, kept⟩ := Parser.ofGrammar?_made made
  obtain ⟨t, suspended⟩ := reachable.suspended program linked error waiting
  obtain ⟨P, live⟩ := (reachable.sane program linked).live error
  obtain ⟨op, id, pass, fail, pending, held, found⟩ := suspended.pending
  have shows := live.stands.shows
  have boundary : IsBoundary P s.position := by
    have visits : s.Visits s.buffer op s.state.resumed := ⟨error, op, 0, pending, .stay _ _⟩
    have range := live.inRange linked visits
    rw [InRange, held] at range
    exact range.2
  have low := Terminal.start_le_of_needInput suspended.needs
  have high : s.position ≤ s.buffer.length := shows.length_eq ▸ boundary.le
  refine ⟨t, suspended, ?_, ?_⟩
  · rw [shows.start_le_iff appended low high, reachable.minRetained suspended.isOpen, kept]
  · obtain ⟨b', appended', -, -, shows'⟩ := Buffer.append_of_open suspended.isOpen text
    cases appended.symm.trans appended'
    rw [Terminal.readFreed_iff (shows' P shows) (boundary.append text), Nat.not_le]

end Stream

/-- A single word. -/
def Grammar.greeting : Grammar :=
  Grammar.empty.addRuleset "return" [.ofPatterns [.ofTokens [.literal "hello!"]] none]

theorem Grammar.greeting_compiles : ∃ parser, Parser.ofGrammar? greeting { minBufferSize := 3 } = .ok parser ∧
    parser.program.ops = #[.ret, .retFail, .output 0 0, .terminal 0 2 1, .accept, .reject, .call 0 4 5] ∧
    parser.program.entries = #[3] ∧ parser.program.root = 6 ∧
    parser.program.terminals = #[.literal "hello!"] ∧ parser.minBufferSize = 3 := by
  obtain ⟨parser, made⟩ : ∃ parser, Parser.ofGrammar? greeting { minBufferSize := 3 } = .ok parser :=
    Except.eq_ok_of_isSome (by decide +kernel)
  have parts : (Parser.ofGrammar? greeting { minBufferSize := 3 }).toOption.map (fun p =>
      (p.program.ops, p.program.entries, p.program.root, p.program.terminals, p.minBufferSize)) =
      some (#[.ret, .retFail, .output 0 0, .terminal 0 2 1, .accept, .reject, .call 0 4 5], #[3], 6,
        #[.literal "hello!"], 3) := by decide +kernel
  rw [made] at parts
  simp only [Except.toOption, Option.map_some, Option.some.injEq, Prod.mk.injEq] at parts
  exact ⟨parser, made, parts⟩

/-- The word in two halves, into a window of the length of a half: the parse waits at the start
of the word, and the second half lets go of the first one. -/
theorem Grammar.greeting_halves :
    ∃ parser b, Parser.ofGrammar? greeting { minBufferSize := 3 } = .ok parser ∧
      Stream.Reachable parser (parser.stream.write "hel").1 ∧
      (parser.stream.write "hel").1.error = none ∧
      (parser.stream.write "hel").1.state.status = .waiting ∧
      (parser.stream.write "hel").1.position = 0 ∧
      (parser.stream.write "hel").1.buffer.length = 3 ∧
      (parser.stream.write "hel").1.buffer.append "lo!" = .ok b ∧ b.start = 3 := by
  obtain ⟨parser, made, ops, entries, root, terminals, window⟩ := greeting_compiles
  let half : Buffer := { minRetained := 3, chunks := [⟨0, "hel"⟩], length := 3 }
  have appended : parser.stream.buffer.append "hel" = .ok half := by
    rw [Parser.stream, window]
    show (Buffer.empty 3).append "hel" = .ok half
    decide
  let called : State :=
    { State.start parser.program with
      pending := none, frames := [{ ruleset := 0, pass := 4, fail := 5, start := 0, captureBase := 0 }] }
  have ran : Machine.run parser.program half parser.stream.state = (called.waitingAt 3, none) := by
    have pending : parser.stream.state.pending = some 6 := congrArg some root
    have taken : step parser.program half 6 parser.stream.state.resumed = .next 3 called := by
      simp [step, ops, State.call, entries, called, Parser.stream, Stream.start, State.start, State.resumed]
    have halt : step parser.program half 3 called = .halt (called.waitingAt 3) := by
      have needs : (Terminal.literal "hello!").matchAt half 0 = .error .needInput := by decide +kernel
      simp [step, ops, State.testTerminal, terminals, called, State.start, needs, State.waitingAt]
    exact (Executes.halts pending (.more taken (.stay 3 called)) halt).run_eq
  have written : (parser.stream.write "hel").1 =
      { parser.stream with buffer := half, state := called.waitingAt 3 } := by
    have run : ({ parser.stream with buffer := half } : Stream).runMachine = (called.waitingAt 3, none) :=
      ran
    rw [Stream.write_eq rfl rfl appended, Stream.advance_eq, Stream.ran, run]
    rfl
  have reachable : Stream.Reachable parser (parser.stream.write "hel").1 :=
    .write .start "hel" (by show 0 + 3 ≤ _; decide)
  let whole : Buffer :=
    { minRetained := 3, chunks := [⟨3, "lo!"⟩], start := 3, length := 6, evicted := ⟨0, 3⟩ }
  have more : half.append "lo!" = .ok whole := by decide
  refine ⟨parser, whole, made, reachable, ?_⟩
  rw [written]
  exact ⟨rfl, rfl, rfl, rfl, more, rfl⟩

/-- A word that comes in two halves into a window of the length of a half: when the second half
comes, the first one is let go, and the word cannot be tested. -/
theorem Stream.Reachable.resumes_iff_between_halves :
    ∃ parser s b, Parser.ofGrammar? Grammar.greeting { minBufferSize := 3 } = .ok parser ∧
      s = (parser.stream.write "hel").1 ∧ s.error = none ∧ s.state.status = .waiting ∧
      s.buffer.length - s.position ≤ 3 ∧ s.buffer.append "lo!" = .ok b ∧
      ∃ t, s.Suspended t ∧ ¬ b.start ≤ s.position ∧ ReadFreed (t.matchAt b s.position) := by
  obtain ⟨parser, b, made, reachable, error, waiting, position, length, more, start⟩ :=
    Grammar.greeting_halves
  obtain ⟨t, suspended, -, freed⟩ := reachable.resumes_iff made error waiting more
  have gone : ¬ b.start ≤ (parser.stream.write "hel").1.position := by
    rw [position, start]
    decide
  exact ⟨parser, _, b, made, rfl, error, waiting, by omega, more, t, suspended, gone, freed.2 gone⟩

/-- That no more than the window was buffered from a waiting terminal on does not keep it
readable. -/
theorem Stream.Reachable.not_resumes_of_window :
    ¬ ∀ (g : Grammar) (config : ParserConfig) (parser : Parser) (s : Stream) (text : String) (b : Buffer),
      Parser.ofGrammar? g config = .ok parser → Reachable parser s → s.error = none →
      s.state.status = .waiting → s.buffer.length - s.position ≤ config.minBufferSize →
      s.buffer.append text = .ok b → b.start ≤ s.position := by
  intro resumes
  obtain ⟨parser, b, made, reachable, error, waiting, position, length, more, start⟩ :=
    Grammar.greeting_halves
  have fits : (parser.stream.write "hel").1.buffer.length - (parser.stream.write "hel").1.position ≤ 3 := by
    omega
  have kept := resumes _ _ _ _ _ b made reachable error waiting fits more
  rw [position, start] at kept
  exact absurd kept (by decide)

end PegFlow
