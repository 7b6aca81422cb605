/-
# PegFlow.Proofs.Stream.Defaults -- defaults are never used

A template that refers to a slot or a constant that is not there would give null, and so would
an op that takes the last result when there is none. In a parser this does not happen: every
constant is grounded where it is evaluated, and in every state that a stream of the parser comes
by, the op at hand is `Provided` with what it takes (`Parser.defaults_unreachable`).
-/
import PegFlow.Proofs.Grammar.Annotations
import PegFlow.Proofs.Machine.Results
import PegFlow.Proofs.Stream.Reachable
import PegFlow.Proofs.Template.Grounded

namespace PegFlow

set_option autoImplicit false

open Machine

/-- The scope in which the output of a rule is worked out. -/
def State.outputScope (p : Program) (b : Buffer) (s : State) (f : Frame) (r : RuleOutput) : Scope :=
  (s.keepCaptures f.captureBase).scope p b f.start r.layout
    (s.captures.extract f.captureBase s.captures.size).toList

namespace Machine

/-- An op that gives an output works it out in a scope with the slots of its rule, in which the
template of the rule is grounded. -/
structure Provided.Output (p : Program) (b : Buffer) (op next : Nat) (s : State) (f : Frame)
    (r : RuleOutput) : Prop where
  worked : step p b op s = match State.ruleOutput (s.outputScope p b f r) r.template with
    | .ok v => .next next { s.keepCaptures f.captureBase with result := some v }
    | .error e => .fault e (s.keepCaptures f.captureBase)
  slots : (s.outputScope p b f r).slots.length = r.layout.length
  grounded : ∀ t, r.template = some t →
    t.Grounded (s.outputScope p b f r) ∧ t.Complete (s.outputScope p b f r)

/-- What the op takes is there: a result, if it takes one, and what the template refers to, if it
works out an output. -/
structure Provided (p : Program) (b : Buffer) (op : Nat) (s : State) : Prop where
  result : p.Takes op → s.result.isSome = true
  output : ∀ rule next, p.ops[op]? = some (.output rule next) → ∃ f rest r,
    s.frames = f :: rest ∧ p.rules[rule]? = some r ∧ Provided.Output p b op next s f r

end Machine

theorem State.length_outputScope (p : Program) (b : Buffer) (s : State) (f : Frame) (r : RuleOutput) :
    (s.outputScope p b f r).slots.length = r.layout.length := by
  simp [outputScope, scope, Capture.assemble]

/-- An op in range that has the result it takes is provided with all that it takes. -/
theorem Machine.Supplied.provided {p : Program} {b : Buffer} {P : String} {op : Nat} {s : State}
    (supplied : Supplied p op s) (grounded : p.Grounded) (range : InRange p P op s) :
    Provided p b op s := by
  refine ⟨supplied.result, fun rule next held => ?_⟩
  rw [InRange, held] at range
  obtain ⟨lt, f, rest, frames, below, -, -, -⟩ := range
  have found : p.rules[rule]? = some p.rules[rule] := Array.getElem?_eq_getElem lt
  refine ⟨f, rest, p.rules[rule], frames, found, ?_, s.length_outputScope p b f _, ?_⟩
  · simp only [step, held, State.giveOutput, frames, found, if_neg (Nat.not_lt.2 below)]
    rfl
  · intro t template
    have here : t.Grounded (s.outputScope p b f p.rules[rule]) :=
      grounded _ (Array.getElem_mem lt) t template _ rfl (Nat.le_of_eq (s.length_outputScope p b f _).symm)
    exact ⟨here, here.complete⟩

namespace Stream

variable {g : AnnotatedGrammar} {library : Library} {P : String} {s : Stream}

theorem Live.provided (live : s.Live g library P) (linked : g.Linked)
    (grounded : (Program.ofGrammar g library).Grounded) {op : Nat} {u : State}
    (visits : s.Visits s.buffer op u) : Provided s.program s.buffer op u := by
  obtain ⟨-, first, n, pending, steps⟩ := visits
  have stands := live.stands
  rw [live.program] at steps ⊢
  generalize s.state = t at stands pending steps
  cases stands with
  | goesOn pending' status follows =>
      cases pending'.symm.trans pending
      have later := follows.steps linked steps
      exact (later.supplied linked).provided grounded (later.inRange linked)
  | accepted accept idle status follows => cases idle.symm.trans pending

theorem Sane.provided (sane : s.Sane g library) (linked : g.Linked)
    (grounded : (Program.ofGrammar g library).Grounded) {b : Buffer} (receives : s.Receives b)
    {op : Nat} {u : State} (visits : s.Visits b op u) : Provided s.program b op u := by
  obtain ⟨P, live⟩ := sane.live visits.1
  rcases receives with rfl | ⟨text, fits, appended⟩
  · exact live.close.provided linked grounded visits
  · have fits' : (P ++ text).utf8ByteSize ≤ Buffer.maxOffset := by
      rwa [String.utf8ByteSize_append, ← live.stands.shows.length_eq]
    exact (live.append (Buffer.isOpen_of_append appended) appended fits').provided linked grounded visits

end Stream

/-- In a parser no default is ever used: what a template refers to is there, for a constant among
the constants before it, spreads stand only where parts do, and a result that is taken is
there. -/
theorem Parser.defaults_unreachable {g : Grammar} {config : ParserConfig} {parser : Parser}
    (made : ofGrammar? g config = .ok parser) :
    (∀ before c after, g.constants = before ++ c :: after →
      ∃ known, Constant.evaluate? config.callbacks [] before = .ok known ∧
        c.value.Grounded (Scope.ofLibrary { constants := known, callbacks := config.callbacks }) ∧
        c.value.Complete (Scope.ofLibrary { constants := known, callbacks := config.callbacks })) ∧
    ∀ s, Stream.Reachable parser s → ∀ b, s.Receives b → ∀ op u, s.Visits b op u →
      Provided s.program b op u := by
  obtain ⟨a, accepted, made⟩ := Except.bind_eq_ok made
  obtain ⟨values, evaluated, made⟩ := Except.bind_eq_ok made
  cases made
  have linked := Grammar.annotate?_linked accepted
  constructor
  · intro before c after split
    obtain ⟨known, first, grounded⟩ := Constant.grounded_of_checkConstants
      (Grammar.annotate?_checked accepted).1 evaluated ((Grammar.annotate?_constants accepted).trans split)
    exact ⟨known, first, grounded, grounded.complete⟩
  · intro s reachable b receives op u visits
    let library : Library := { constants := values, callbacks := config.callbacks }
    have grounded : (Program.ofGrammar a library).Grounded := Program.ofGrammar_grounded accepted evaluated
    have sane : s.Sane a library := reachable.sane rfl linked
    exact sane.provided linked grounded receives visits

/-- A seven behind its sign, which is a constant; a host function puts them together. -/
def Grammar.signed : Grammar :=
  (Grammar.empty.addConstant "sign" (.literal (.string "+"))).addRuleset "return"
    [.ofPatterns [.ofTokens [.capture [.ofTokens [.literal "7"]]]]
      (some (.call "add" [.constant "sign", .spread (.back 1)]))]

theorem Grammar.signed_compiles : ∃ parser, Parser.ofGrammar? signed (.adding 0) = .ok parser ∧
    parser.program.ops = #[.ret, .retFail, .output 0 0, .captureEnd 1 false 2, .captureFail 1,
      .terminal 0 3 4, .captureStart 5, .accept, .reject, .call 0 7 8] ∧
    parser.program.entries = #[6] ∧ parser.program.root = 9 ∧
    parser.program.terminals = #[.literal "7"] := by
  obtain ⟨parser, made⟩ : ∃ parser, Parser.ofGrammar? signed (.adding 0) = .ok parser :=
    Except.eq_ok_of_isSome (by decide +kernel)
  have parts : (Parser.ofGrammar? signed (.adding 0)).toOption.map (fun p =>
      (p.program.ops, p.program.entries, p.program.root, p.program.terminals)) =
      some (#[.ret, .retFail, .output 0 0, .captureEnd 1 false 2, .captureFail 1, .terminal 0 3 4,
        .captureStart 5, .accept, .reject, .call 0 7 8], #[6], 9, #[.literal "7"]) := by decide +kernel
  rw [made] at parts
  simp only [Except.toOption, Option.map_some, Option.some.injEq, Prod.mk.injEq] at parts
  exact ⟨parser, made, parts⟩

/-- When the output of a seven is worked out, the sign is there and so is the capture. -/
theorem Parser.defaults_unreachable_at_seven : ∃ parser u f rest r,
    ofGrammar? Grammar.signed (.adding 0) = .ok parser ∧
    (Stream.start parser.program (Buffer.complete "7")).Visits (Buffer.complete "7").close 2 u ∧
    u.frames = f :: rest ∧ parser.program.rules[0]? = some r ∧
    Provided.Output parser.program (Buffer.complete "7").close 2 0 u f r := by
  obtain ⟨parser, made, ops, entries, root, terminals⟩ := Grammar.signed_compiles
  let p := parser.program
  let b := (Buffer.complete "7").close
  let called : State := { State.start p with
    pending := none, frames := [{ ruleset := 0, pass := 7, fail := 8, start := 0, captureBase := 0 }] }
  let begun : State := { called with captureStarts := [0] }
  let read : State := { begun with pos := 1 }
  let captured : State := { called with pos := 1, captures := #[⟨1, .string "7"⟩] }
  have calls : step p b 9 (State.start p).resumed = .next 6 called := by
    simp [step, p, ops, State.call, entries, called, State.start, State.resumed]
  have starts : step p b 6 called = .next 5 begun := by
    simp [step, p, ops, called, begun, State.start]
  have reads : step p b 5 begun = .next 3 read := by
    have found : (Terminal.literal "7").matchAt b 0 = .ok (some 1) := by decide +kernel
    simp [step, p, ops, State.testTerminal, terminals, called, begun, read, State.start, found]
  have ends : step p b 3 read = .next 2 captured := by
    have text : b.substrExact 0 1 = .ok "7" := by decide +kernel
    simp [step, p, ops, State.endCapture, called, begun, read, captured, State.start, State.record, text]
  have visits : (Stream.start p (Buffer.complete "7")).Visits b 2 captured :=
    ⟨rfl, 9, 4, congrArg some root, .more calls (.more starts (.more reads (.more ends (.stay _ _))))⟩
  have reachable : Stream.Reachable parser (.start p (Buffer.complete "7")) := .whole "7" (by decide)
  have provided := (defaults_unreachable made).2 _ reachable b (Or.inl rfl) 2 captured visits
  obtain ⟨f, rest, r, frames, rule, output⟩ := provided.output 0 0 (by simp [Stream.start, p, ops])
  exact ⟨parser, captured, f, rest, r, made, visits, frames, rule, output⟩

end PegFlow
