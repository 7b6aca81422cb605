/-
# PegFlow.Proofs.Stream.Agreement -- pieces of a text parse as the text does

However a text is cut into pieces, writing them one after the other and closing the stream
gives what parsing the whole text gives: the same value, or the same fault at the same
position with the same expectations. The one other answer is that text was needed again
that was let go, and there is none where the buffer may keep the whole text
(`Parser.feed_agrees`).

A step of the proof is one call: what ends the parse in it ends the parse of the whole text
(`Stream.Live.trouble_agrees`), and where nothing does when the text has ended, nothing
does either there (`Stream.Live.value_agrees`).
-/
import PegFlow.Proofs.Buffer.Place
import PegFlow.Proofs.Stream.Reachable

namespace PegFlow

set_option autoImplicit false

open Text Machine

/-- Write the pieces in order, up to the first error, and close the stream. -/
def Stream.feed (s : Stream) : List String → Except ParseError Value
  | [] => s.close.2
  | piece :: rest =>
    match s.write piece with
    | (s, .ok _) => s.feed rest
    | (_, .error e) => .error e

/-- The same fault at the same position, with the same expectations. -/
structure ParseError.Agrees (e e' : ParseError) : Prop where
  fault : e.fault = e'.fault
  position : e.position = e'.position
  expected : e.expected = e'.expected

/-- The fault is that text is needed again that was let go. -/
def ParseError.Freed (e : ParseError) : Prop :=
  ∃ offset retainedFrom, e.fault = .inputFreed offset retainedFrom

/-- The same value, or errors that are related. -/
def SameAnswer (same : ParseError → ParseError → Prop) :
    Except ParseError Value → Except ParseError Value → Prop
  | .ok v, .ok v' => v = v'
  | .error e, .error e' => same e e'
  | _, _ => False

theorem SameAnswer.imp {same same' : ParseError → ParseError → Prop} {x y : Except ParseError Value}
    (h : SameAnswer same x y) (next : ∀ e e', x = .error e → same e e' → same' e e') :
    SameAnswer same' x y := by
  cases x with
  | ok v =>
      cases y with
      | ok v' => exact h
      | error e' => exact h
  | error e =>
      cases y with
      | ok v' => exact h
      | error e' => exact next e e' rfl h

/-- The answer of a stream is that of the whole text, or that text is needed that was let go;
if everything is kept, it is the former, at the same line and column. -/
def Answered (kept : Prop) (answer whole : Except ParseError Value) : Prop :=
  (∃ e, answer = .error e ∧ e.Freed ∧ ¬ kept) ∨
    SameAnswer (fun e e' => e.Agrees e' ∧ (kept → e.lineAndColumn = e'.lineAndColumn ∧ ¬ e.Freed))
      answer whole

namespace Stream

/-- Streams in one state of one program put the same errors down. -/
theorem errorAt_agrees {s w : Stream} (program : s.program = w.program) (state : s.state = w.state)
    (f : Fault) (p : Nat) : (s.errorAt f p).Agrees (w.errorAt f p) := by
  refine ⟨rfl, rfl, ?_⟩
  simp only [errorAt, program, state]

theorem errorAt_place {s w : Stream} {P more : String} (shows : s.buffer.Shows P)
    (shows' : w.buffer.Shows (P ++ more)) (start : s.buffer.start = 0) (start' : w.buffer.start = 0)
    (f : Fault) {p : Nat} (le : p ≤ P.utf8ByteSize) :
    (s.errorAt f p).lineAndColumn = (w.errorAt f p).lineAndColumn := by
  simp only [errorAt]
  rw [shows.lineAndColumn_eq (by omega), shows'.lineAndColumn_eq (by omega), Buffer.cursorAt_append more le]

theorem trouble?_congr {s w : Stream} (state : s.state = w.state)
    (length : s.buffer.length = w.buffer.length) (closed : s.buffer.closed = w.buffer.closed)
    (fault : Option Fault) : s.trouble? fault = w.trouble? fault := by
  simp only [trouble?, position, state, length, closed]
  rfl

/-- Before the text has ended, what ends the parse does not depend on how long it is. -/
theorem trouble?_of_open {s w : Stream} (state : s.state = w.state) (isOpen : s.buffer.closed = false)
    {fault : Option Fault} {x : Fault × Nat} (h : s.trouble? fault = some x) :
    w.trouble? fault = some x := by
  cases fault with
  | some f => simpa only [trouble?, position, state] using h
  | none =>
      simp only [trouble?, isOpen, state] at h ⊢
      split at h
      · simp at h
      · rename_i failed
        simpa only [failed] using h
      · cases h

/-- The stream that holds a whole text. -/
def ofWhole (g : AnnotatedGrammar) (library : Library) (T : String) : Stream :=
  .start (Program.ofGrammar g library) (Buffer.complete T)

section

variable {g : AnnotatedGrammar} {library : Library} {P more : String} {s : Stream}

theorem ofWhole_live (g : AnnotatedGrammar) (library : Library) {T : String}
    (fits : T.utf8ByteSize ≤ Buffer.maxOffset) : (ofWhole g library T).Live g library T :=
  ⟨rfl, rfl, .whole g library fits⟩

namespace Live

/-- A run of a stream comes to what the run over a whole text comes to. -/
theorem run_agrees (live : s.Live g library P) (linked : g.Linked) (ended : s.buffer.closed = true → more = "")
    (fits : (P ++ more).utf8ByteSize ≤ Buffer.maxOffset) :
    (s.ran.state = (ofWhole g library (P ++ more)).ran.state ∧
        s.runMachine.2 = (ofWhole g library (P ++ more)).runMachine.2) ∨
      (s.runMachine.2 = none ∧ s.ran.state.status = .waiting) ∨
      (0 < s.buffer.start ∧ ∃ offset retainedFrom, s.runMachine.2 = some (.inputFreed offset retainedFrom)) :=
  (live.settles linked).agree linked ended ((ofWhole_live g library fits).settles linked)

/-- Once its text has ended, a stream has the same trouble as the whole text in the same
state. -/
theorem trouble?_ended (live : s.Live g library P) (isClosed : s.buffer.closed = true)
    (state : s.ran.state = (ofWhole g library P).ran.state) (fault : Option Fault) :
    s.ran.trouble? fault = (ofWhole g library P).ran.trouble? fault := by
  refine trouble?_congr state ?_ ?_ fault
  · exact live.stands.shows.length_eq.trans (Buffer.shows_complete P).length_eq.symm
  · exact isClosed.trans (Buffer.complete_closed P).symm

/-- What ends a parse ends the parse of the whole text, in the same state. -/
theorem trouble_agrees (live : s.Live g library P) (linked : g.Linked)
    (ended : s.buffer.closed = true → more = "") (fits : (P ++ more).utf8ByteSize ≤ Buffer.maxOffset)
    {f : Fault} {p : Nat} (h : s.ran.trouble? s.runMachine.2 = some (f, p)) :
    (s.ran.state = (ofWhole g library (P ++ more)).ran.state ∧
        (ofWhole g library (P ++ more)).ran.trouble? (ofWhole g library (P ++ more)).runMachine.2 =
          some (f, p)) ∨
      (0 < s.buffer.start ∧ ∃ offset retainedFrom, f = .inputFreed offset retainedFrom) := by
  rcases live.run_agrees linked ended fits with ⟨state, fault⟩ | ⟨none, waiting⟩ | ⟨evicted, o, r, freed⟩
  · refine Or.inl ⟨state, ?_⟩
    rw [fault] at h
    cases closed : s.buffer.closed with
    | false => exact trouble?_of_open state closed h
    | true =>
        obtain rfl := ended closed
        rw [String.append_empty] at state h ⊢
        exact (live.trouble?_ended closed state _).symm.trans h
  · rw [none, trouble?, waiting] at h
    cases h
  · rw [freed] at h
    cases h
    exact Or.inr ⟨evicted, o, r, rfl⟩

/-- When nothing ends a parse whose text has ended, nothing ends the parse of the whole text,
and both are in the same state. -/
theorem value_agrees (live : s.Live g library P) (linked : g.Linked) (isClosed : s.buffer.closed = true)
    (h : s.ran.trouble? s.runMachine.2 = none) :
    s.ran.state = (ofWhole g library P).ran.state ∧
      (ofWhole g library P).ran.trouble? (ofWhole g library P).runMachine.2 = none := by
  have passed := (live.goesOn linked h).2 isClosed
  have fits : (P ++ "").utf8ByteSize ≤ Buffer.maxOffset := by
    rw [String.append_empty]
    exact live.stands.fits
  have agrees := live.run_agrees linked (fun _ => rfl) fits
  rw [String.append_empty] at agrees
  rcases agrees with ⟨state, fault⟩ | ⟨-, waiting⟩ | ⟨-, o, r, freed⟩
  · rw [fault] at h
    exact ⟨state, (live.trouble?_ended isClosed state _).symm.trans h⟩
  · rw [status, waiting] at passed
    simp at passed
  · rw [freed] at h
    cases h

variable {kept : Prop}

/-- The error with which a call ends the parse answers for the whole text. -/
theorem error_answered (live : s.Live g library P) (linked : g.Linked)
    (configured : (Program.ofGrammar g library).Configured) (ended : s.buffer.closed = true → more = "")
    (fits : (P ++ more).utf8ByteSize ≤ Buffer.maxOffset) (all : kept → s.buffer.start = 0) {f : Fault}
    {p : Nat} (h : s.ran.trouble? s.runMachine.2 = some (f, p)) :
    Answered kept (.error (s.ran.errorAt f p)) (ofWhole g library (P ++ more)).finish.2 := by
  obtain ⟨within, possible⟩ := live.trouble linked configured h
  have whole := ofWhole_live g library fits
  rcases live.trouble_agrees linked ended fits h with ⟨state, same⟩ | ⟨evicted, freed⟩
  · refine Or.inr ?_
    rw [whole.finish_eq linked (Buffer.complete_closed _), same]
    refine ⟨errorAt_agrees live.program state f p, fun keeps => ⟨?_, ?_⟩⟩
    · exact errorAt_place live.stands.shows whole.stands.shows (all keeps) (Buffer.complete_start _) f within
    · rintro ⟨o, r, freed⟩
      have freed : f = .inputFreed o r := freed
      rw [freed] at possible
      have evicted : 0 < s.buffer.start := possible.resolve_right nofun
      have := all keeps
      omega
  · refine Or.inl ⟨_, rfl, freed, fun keeps => ?_⟩
    have := all keeps
    omega

/-- The end of a parse whose text has ended answers for the whole text. -/
theorem finish_answered (live : s.Live g library P) (linked : g.Linked)
    (configured : (Program.ofGrammar g library).Configured) (isClosed : s.buffer.closed = true)
    (all : kept → s.buffer.start = 0) : Answered kept s.finish.2 (ofWhole g library P).finish.2 := by
  rw [live.finish_eq linked isClosed]
  cases h : s.ran.trouble? s.runMachine.2 with
  | some end_ =>
      obtain ⟨f, p⟩ := end_
      have fits : (P ++ "").utf8ByteSize ≤ Buffer.maxOffset := by
        rw [String.append_empty]
        exact live.stands.fits
      have answered := live.error_answered linked configured (fun _ => rfl) fits all h
      rw [String.append_empty] at answered
      exact answered
  | none =>
      obtain ⟨state, none⟩ := live.value_agrees linked isClosed h
      rw [(ofWhole_live g library live.stands.fits).finish_eq linked (Buffer.complete_closed P), none]
      exact Or.inr (congrArg (fun t : State => t.output.getD .null) state)

/-- Feeding the rest of a text answers for the whole text, by induction on the pieces. -/
theorem feed_answered {pieces : List String} (live : s.Live g library P) (linked : g.Linked)
    (configured : (Program.ofGrammar g library).Configured) (isOpen : s.buffer.closed = false)
    (fits : (P ++ String.join pieces).utf8ByteSize ≤ Buffer.maxOffset) (start : kept → s.buffer.start = 0)
    (enough : kept → (P ++ String.join pieces).utf8ByteSize ≤ s.buffer.minRetained) :
    Answered kept (s.feed pieces) (ofWhole g library (P ++ String.join pieces)).finish.2 := by
  induction pieces generalizing P s with
  | nil =>
      rw [feed, close_eq live.error, String.join_nil, String.append_empty]
      exact live.close.finish_answered linked configured rfl start
  | cons piece rest ih =>
      rw [String.join_cons, ← String.append_assoc] at fits enough ⊢
      obtain ⟨b, appended, isOpen', same, -⟩ := Buffer.append_of_open isOpen piece
      have total : (P ++ piece ++ String.join rest).utf8ByteSize = _ := String.utf8ByteSize_append
      have later := live.append isOpen appended (by omega)
      have start' : kept → b.start = 0 := by
        intro keeps
        have le := enough keeps
        rw [live.stands.shows.append_start appended (by omega)]
        exact start keeps
      rw [feed, write_eq live.error isOpen appended, advance_eq]
      generalize hs : ({ s with buffer := b } : Stream) = s' at later
      have buffer : s'.buffer = b := by rw [← hs]
      cases h : s'.ran.trouble? s'.runMachine.2 with
      | some end_ =>
          obtain ⟨f, p⟩ := end_
          exact later.error_answered linked configured (fun closed => by simp [buffer, isOpen'] at closed)
            fits (buffer ▸ start') h
      | none =>
          have onward := (later.goesOn linked h).1
          have buffer' : s'.ran.buffer = b := buffer
          exact ih onward (buffer' ▸ isOpen') fits (buffer' ▸ start') fun keeps => by
            rw [buffer', same]
            exact enough keeps

end Live

end

end Stream

/-- Pieces of a text, written in order up to the first error, give what the whole text gives,
or text is needed that was let go. If the buffer may keep the whole text, they give the
former, and errors are at the same line and column. -/
theorem Parser.feed_agrees {g : Grammar} {config : ParserConfig} {parser : Parser}
    (made : ofGrammar? g config = .ok parser) (pieces : List String)
    (fits : (String.join pieces).utf8ByteSize ≤ Buffer.maxOffset) :
    ((∃ e, parser.stream.feed pieces = .error e ∧ e.Freed) ∨
      SameAnswer ParseError.Agrees (parser.stream.feed pieces) (parser.parse (String.join pieces))) ∧
    ((String.join pieces).utf8ByteSize ≤ config.minBufferSize →
      SameAnswer (fun e e' => e.Agrees e' ∧ e.lineAndColumn = e'.lineAndColumn)
        (parser.stream.feed pieces) (parser.parse (String.join pieces)) ∧
      ∀ e, parser.stream.feed pieces = .error e → ¬ e.Freed) := by
  obtain ⟨library, program, linked, configured, size⟩ := ofGrammar?_made made
  have live := stream_live program
  have answered : Answered ((String.join pieces).utf8ByteSize ≤ config.minBufferSize)
      (parser.stream.feed pieces)
      (Stream.ofWhole parser.grammar library ("" ++ String.join pieces)).finish.2 := by
    refine live.feed_answered linked configured rfl (by rwa [String.empty_append]) (fun _ => rfl) ?_
    intro keeps
    rw [String.empty_append]
    rw [← size] at keeps
    exact keeps
  rw [String.empty_append, Stream.ofWhole, ← program] at answered
  change Answered _ _ (parser.parse (String.join pieces)) at answered
  rcases answered with ⟨e, feeds, freed, lost⟩ | same
  · exact ⟨Or.inl ⟨e, feeds, freed⟩, fun keeps => (lost keeps).elim⟩
  · constructor
    · exact Or.inr (same.imp fun _ _ _ h => h.1)
    · intro keeps
      refine ⟨same.imp fun _ _ _ h => ⟨h.1, (h.2 keeps).1⟩, ?_⟩
      intro e feeds
      rw [feeds] at same
      cases whole : parser.parse (String.join pieces) with
      | ok v =>
          rw [whole] at same
          exact same.elim
      | error e' =>
          rw [whole] at same
          exact (same.2 keeps).2

/-- A sum in three pieces, one of them empty, in a buffer that may keep it all. -/
theorem Parser.feed_agrees_on_sum : ∃ parser, ofGrammar? Grammar.computed (.adding 3) = .ok parser ∧
    (String.join ["1+", "", "2"]).utf8ByteSize ≤ (ParserConfig.adding 3).minBufferSize ∧
    SameAnswer (fun e e' => e.Agrees e' ∧ e.lineAndColumn = e'.lineAndColumn)
      (parser.stream.feed ["1+", "", "2"]) (parser.parse (String.join ["1+", "", "2"])) := by
  obtain ⟨parser, made⟩ : ∃ parser, ofGrammar? Grammar.computed (.adding 3) = .ok parser :=
    Except.eq_ok_of_isSome (by decide +kernel)
  have small : (String.join ["1+", "", "2"]).utf8ByteSize ≤ (ParserConfig.adding 3).minBufferSize := by
    decide +kernel
  exact ⟨parser, made, small, ((feed_agrees made _ (by decide +kernel)).2 small).1⟩

end PegFlow
