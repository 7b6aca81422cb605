/-
# PegFlow.Proofs.Stream.NoMatch -- what an error of no match reports

A stream that ended because the grammar does not match reports the furthest position at which a
terminal failed in its course outside every lookahead, and the descriptions of the terminals that
failed there, sorted, each once (`ParseError.Tells`, `Parser.failures_exact`), as long as fewer
lookaheads were open at once than can be counted.
-/
import PegFlow.Proofs.Machine.Furthest
import PegFlow.Proofs.Stream.Traced
import PegFlow.Proofs.Value.Keyed

namespace PegFlow

set_option autoImplicit false

open Text Machine

/-- The error reports the furthest failures of what was executed, outside every lookahead. -/
structure ParseError.Tells (g : AnnotatedGrammar) (p : Program) (past : List Moment) (e : ParseError) :
    Prop where
  greatest : ∀ pos id, FailedAt g p past pos id → pos ≤ e.position
  reached : e.position = 0 ∨ ∃ id, FailedAt g p past e.position id
  sorted : e.expected.Pairwise (· < ·)
  exact : ∀ text, text ∈ e.expected ↔
    ∃ id t, FailedAt g p past e.position id ∧ p.terminals[id]? = some t ∧ t.description = text

theorem State.sorted_expectedTexts (s : State) (p : Program) : (s.expectedTexts p).Pairwise (· < ·) :=
  List.pairwise_map.2 (Keyed.sorted_ofList _)

theorem State.mem_expectedTexts {s : State} {p : Program} {text : String} :
    text ∈ s.expectedTexts p ↔ ∃ id t, id ∈ s.expected ∧ p.terminals[id]? = some t ∧ t.description = text := by
  rw [expectedTexts, Keyed.mem_keys_ofList, Keyed.keys, List.map_map, List.mem_map]
  simp only [List.mem_filterMap]
  constructor
  · rintro ⟨t, ⟨id, member, found⟩, described⟩
    exact ⟨id, t, member, found, described⟩
  · rintro ⟨id, t, member, found, described⟩
    exact ⟨t, ⟨id, member, found⟩, described⟩

/-- At the end of a course that was rejected an error with what the machine knows tells what
failed in it. -/
theorem Course.tells {g : AnnotatedGrammar} {library : Library} {past : List Moment} {now : Moment} {t : State}
    {e : ParseError} (course : Course (Program.ofGrammar g library) past now)
    (shallow : Shallow g (Program.ofGrammar g library) now.buffer)
    (halted : now.turn (Program.ofGrammar g library) = .halt t) (failed : t.status = .failed)
    (position : e.position = t.furthest) (expected : e.expected = t.expectedTexts (Program.ofGrammar g library)) :
    e.Tells g (Program.ofGrammar g library) past := by
  have rejected : t.failures = now.state.failures := by
    have goes := step_goes (Program.ofGrammar g library) now.buffer now.op now.state
    rw [Moment.turn] at halted
    rw [halted] at goes
    cases goes with
    | waits => cases failed
    | accepts => cases failed
    | rejects => rfl
  have recalls := (course.recalls shallow).congr rejected
  refine ⟨position ▸ recalls.greatest, position ▸ recalls.reached, ?_, fun text => ?_⟩
  · rw [expected]
    exact t.sorted_expectedTexts _
  · rw [expected, State.mem_expectedTexts]
    simp only [recalls.exact, position]

/-- At every moment of every course in which lookaheads can be counted the machine knows the
furthest position at which a terminal failed outside every lookahead, and exactly the terminals
that failed there. Whatever a stream runs is run at a moment of a course, and an error of no match
tells what failed in the course that ended with it. -/
theorem Parser.failures_exact {g : Grammar} {config : ParserConfig} {parser : Parser}
    (made : ofGrammar? g config = .ok parser) :
    (∀ past now, Course parser.program past now → Shallow parser.grammar parser.program now.buffer →
      Recalls parser.grammar parser.program past now.state) ∧
    (∀ s, Stream.Reachable parser s → ∀ b, s.Receives b → ∀ op u, s.Visits b op u →
      ∃ past, Course parser.program past ⟨b, op, u⟩) ∧
    ∀ s e, parser.Fails s e → e.fault = .noMatch → ∃ past now, Course parser.program past now ∧
      now.buffer = s.buffer ∧ now.turn parser.program = .halt s.state ∧ s.state.status = .failed ∧
      (Shallow parser.grammar parser.program s.buffer → e.Tells parser.grammar parser.program past) := by
  obtain ⟨library, program, linked, -⟩ := ofGrammar?_made made
  have traced {s : Stream} (reachable : Stream.Reachable parser s) := reachable.traced program linked
  rw [program]
  refine ⟨fun past now course shallow => course.recalls shallow, fun s reachable b receives op u visits => ?_,
    fun s e fails noMatch => ?_⟩
  · obtain ⟨P, live⟩ := (reachable.sane program linked).live visits.1
    exact (traced reachable).visits live.program receives visits
  · obtain ⟨past, now, course, buffer, halted, failed, position, expected⟩ :=
      (traced fails.kept.1).rejected e fails.kept.2 noMatch
    refine ⟨past, now, course, buffer, halted, failed, fun shallow => ?_⟩
    rw [← buffer] at shallow
    exact course.tells shallow halted failed position expected

/-- An `a`, where no `b` is. -/
def Grammar.guarded : Grammar :=
  Grammar.empty.addRuleset "return"
    [.ofPatterns [.ofTokens [(Token.literal "b").negativeLookahead, .literal "a"]] none]

theorem Grammar.guarded_compiles : ∃ parser, Parser.ofGrammar? guarded {} = .ok parser ∧
    parser.program.ops = #[.ret, .retFail, .output 0 0, .rollback 1, .commit 2, .terminal 1 4 3, .lookExit 5,
      .lookExit 3, .terminal 0 7 6, .lookEnter 8, .enter 9, .accept, .reject, .call 0 11 12] ∧
    parser.program.entries = #[10] ∧ parser.program.root = 13 ∧
    parser.program.terminals = #[.literal "b", .literal "a"] ∧ Program.deepest parser.grammar = 1 ∧
    parser.grammar.grammar.rulesets.length = 1 := by
  obtain ⟨parser, made⟩ : ∃ parser, Parser.ofGrammar? guarded {} = .ok parser :=
    Except.eq_ok_of_isSome (by decide +kernel)
  have parts : (Parser.ofGrammar? guarded {}).toOption.map (fun p =>
      (p.program.ops, p.program.entries, p.program.root, p.program.terminals)) =
      some (#[.ret, .retFail, .output 0 0, .rollback 1, .commit 2, .terminal 1 4 3, .lookExit 5,
        .lookExit 3, .terminal 0 7 6, .lookEnter 8, .enter 9, .accept, .reject, .call 0 11 12], #[10], 13,
        #[.literal "b", .literal "a"]) := by decide +kernel
  have sizes : (Parser.ofGrammar? guarded {}).toOption.map (fun p =>
      (Program.deepest p.grammar, p.grammar.grammar.rulesets.length)) = some (1, 1) := by decide +kernel
  rw [made] at parts sizes
  simp only [Except.toOption, Option.map_some, Option.some.injEq, Prod.mk.injEq] at parts sizes
  obtain ⟨ops, entries, root, terminals⟩ := parts
  exact ⟨parser, made, ops, entries, root, terminals, sizes⟩

/-- A text in which neither is: both terminals fail at its start, the first of them only within
a lookahead. -/
theorem Parser.failures_exact_of_guarded : ∃ parser e past now, ofGrammar? Grammar.guarded {} = .ok parser ∧
    parser.parse "c" = .error e ∧ e.fault = .noMatch ∧ e.position = 0 ∧
    e.expected = [(Terminal.literal "a").description] ∧ Course parser.program past now ∧
    e.Tells parser.grammar parser.program past := by
  obtain ⟨parser, made, ops, entries, root, terminals, deepest, rulesets⟩ := Grammar.guarded_compiles
  let p := parser.program
  let b := Buffer.complete "c"
  let called : State := { State.start p with
    pending := none, frames := [{ ruleset := 0, pass := 11, fail := 12, start := 0, captureBase := 0 }] }
  let begun : State := { called with marks := [⟨0, 0⟩] }
  let looking : State := { begun with marks := [⟨0, 0⟩, ⟨0, 0⟩], quiet := 1 }
  let tried : State := { State.start p with pending := none, expected := [1] }
  have misses : (Terminal.literal "b").matchAt b 0 = .ok none ∧ (Terminal.literal "a").matchAt b 0 = .ok none := by
    decide +kernel
  have calls : step p b 13 (State.start p).resumed = .next 10 called := by
    simp [step, p, ops, State.call, entries, called, State.start, State.resumed]
  have enters : step p b 10 called = .next 9 begun := by
    simp [step, p, ops, called, begun, State.start, State.mark]
  have looks : step p b 9 begun = .next 8 looking := by
    simp [step, p, ops, called, begun, looking, State.start, State.mark]
  have quiet : step p b 8 looking = .next 6 looking := by
    simp [step, p, ops, State.testTerminal, terminals, looking, begun, called, State.start, misses.1, State.noteFailure]
  have stops : step p b 6 looking = .next 5 begun := by
    simp [step, p, ops, State.stopLooking, State.keepCaptures, looking, begun, called, State.start]
  have fails : step p b 5 begun = .next 3 { begun with expected := [1] } := by
    simp [step, p, ops, State.testTerminal, terminals, begun, called, State.start, misses.2, State.noteFailure]
  have returns : step p b 3 { begun with expected := [1] } = .next 1 { called with expected := [1] } := by
    simp [step, p, ops, State.goBack, State.keepCaptures, begun, called, State.start]
  have leaves : step p b 1 { called with expected := [1] } = .next 12 tried := by
    simp [step, p, ops, State.leaveFailed, State.keepCaptures, called, tried, State.start]
  have rejects : step p b 12 tried = .halt tried.rejected := step_reject (by simp [p, ops])
  have ran : Machine.run p b (State.start p) = (tried.rejected, none) :=
    (Executes.halts (congrArg some root) (.more calls (.more enters (.more looks (.more quiet (.more stops
      (.more fails (.more returns (.more leaves (.stay _ _))))))))) rejects).run_eq
  have run : (Stream.start p b).runMachine = (tried.rejected, none) := ran
  let e := ({ Stream.start p b with state := tried.rejected } : Stream).errorAt .noMatch 0
  have failed : parser.parse "c" = .error e := by
    rw [Parser.parse, Stream.finish, Stream.advance_eq, Stream.ran, run]
    rfl
  have expected : e.expected = [(Terminal.literal "a").description] := by
    show tried.rejected.expectedTexts p = _
    simp [State.expectedTexts, tried, State.rejected, p, terminals, Keyed.ofList, Keyed.insertAll, Keyed.insert,
      Keyed.keys]
  have length : (Stream.start p b).close.1.buffer.length = 1 := by
    rcases (Stream.start p b).close_buffer with same | closed
    · exact (congrArg Buffer.length same).trans (by decide : b.length = 1)
    · exact (congrArg Buffer.length closed).trans (by decide : b.length = 1)
  have shallow : Shallow parser.grammar p (Stream.start p b).close.1.buffer := by
    obtain ⟨library, program, linked, -⟩ := ofGrammar?_made made
    rw [show p = _ from program] at length ⊢
    exact .of_length linked (by rw [length]; decide) (by rw [length, deepest, rulesets]; decide)
  obtain ⟨past, now, course, -, -, -, tells⟩ := (failures_exact made).2.2 _ e (.parse (by decide) failed) rfl
  exact ⟨parser, e, past, now, made, failed, rfl, rfl, expected, course, tells shallow⟩

end PegFlow
