/-
# PegFlow.Proofs.Stream.Rename -- parses by renamed programs

When a program as a whole is another one under other numbers, a run of the one is a run of the
other, step by step, up to the numbers in its states (`Executes.rename`). What a parse tells does
not depend on numbers: position, output and the texts of what was expected are the same, and so are
its answers (`Stream.finish_rename`).
-/
import PegFlow.Proofs.Machine.Rename
import PegFlow.Proofs.Stream.Advance

namespace PegFlow

set_option autoImplicit false

/-- The whole of `q` is in `p` under other numbers, and it begins and ends where `p` does. -/
structure Program.Renumbered (ν : Renaming) (q p : Program) : Prop extends q.Renamed ν p where
  root : p.root = ν.op q.root
  beyond : ∀ op : Nat, q.ops[op]? = none → p.ops[ν.op op]? = none

namespace Machine

variable {ν : Renaming} {q p : Program} (whole : q.Renumbered ν p) {b : Buffer}

include whole

theorem step_renumbered (op : Nat) (s : State) :
    step p b (ν.op op) (s.rename ν) = (step q b op s).rename ν := by
  cases held : q.ops[op]? with
  | none =>
      simp only [step, held, whole.beyond op held]
      rfl
  | some o => exact step_rename whole.toRenamed b s held

theorem Steps.rename {n op op' : Nat} {s s' : State} (steps : Steps q b n op s op' s') :
    Steps p b n (ν.op op) (s.rename ν) (ν.op op') (s'.rename ν) := by
  induction steps with
  | stay => exact .stay _ _
  | more taken _ ih =>
      refine .more ?_ ih
      rw [step_renumbered whole, taken]
      rfl

theorem Executes.rename {n : Nat} {s t : State} {fault : Option Fault}
    (executes : Executes q b s n (t, fault)) : Executes p b (s.rename ν) n (t.rename ν, fault) := by
  cases executes with
  | idle halted =>
      refine .idle ?_
      rw [State.rename, halted]
      rfl
  | @halts n op op' u _ pending steps halt =>
      have pending' : (s.rename ν).pending = some (ν.op op) := by
        rw [State.rename, pending]
        rfl
      have halt' : step p b (ν.op op') (u.rename ν) = .halt (t.rename ν) := by
        rw [step_renumbered whole, halt]
        rfl
      exact .halts pending' (Steps.rename whole steps) halt'
  | @faults n op op' u _ f pending steps fault =>
      have pending' : (s.rename ν).pending = some (ν.op op) := by
        rw [State.rename, pending]
        rfl
      have fault' : step p b (ν.op op') (u.rename ν) = .fault f (t.rename ν) := by
        rw [step_renumbered whole, fault]
        rfl
      exact .faults pending' (Steps.rename whole steps) fault'

end Machine

open Machine

/-- The stream with a renamed program and the numbers in its state. -/
def Stream.rename (ν : Renaming) (p : Program) (s : Stream) : Stream :=
  { s with program := p, state := s.state.rename ν }

namespace Stream

variable {ν : Renaming} {p : Program} {s : Stream} (whole : s.program.Renumbered ν p)

include whole

/-- The texts of what is expected are those of the same terminals. -/
theorem expectedTexts_rename (t : State) : (t.rename ν).expectedTexts p = t.expectedTexts s.program := by
  have same : (t.expected.map ν.terminal).filterMap (fun id => p.terminals[id]?) =
      t.expected.filterMap fun id => s.program.terminals[id]? := by
    rw [List.filterMap_map]
    exact congrArg (t.expected.filterMap ·) (funext whole.terminals)
  simp only [State.expectedTexts, State.rename, same]

theorem errorAt_rename (f : Fault) (pos : Nat) : (s.rename ν p).errorAt f pos = s.errorAt f pos := by
  have texts : (s.rename ν p).state.expectedTexts (s.rename ν p).program =
      s.state.expectedTexts s.program := expectedTexts_rename whole s.state
  simp only [errorAt, texts]
  rfl

theorem fail_rename {α : Type} (f : Fault) (pos : Nat) :
    ((s.rename ν p).fail f pos : Stream × Except ParseError α) =
      Prod.map (rename ν p) id (s.fail f pos : Stream × Except ParseError α) := by
  simp only [fail, errorAt_rename whole]
  rfl

theorem ran_rename {n : Nat}
    (executes : Executes s.program s.buffer s.state n (Machine.run s.program s.buffer s.state)) :
    (s.rename ν p).ran = s.ran.rename ν p ∧ (s.rename ν p).runMachine.2 = s.runMachine.2 := by
  have run : Machine.run (s.rename ν p).program (s.rename ν p).buffer (s.rename ν p).state =
      Prod.map (State.rename ν) id (Machine.run s.program s.buffer s.state) :=
    (Executes.rename whole executes).run_eq
  have status : (s.rename ν p).state.status = s.state.status := rfl
  have same : (s.rename ν p).runMachine = Prod.map (State.rename ν) id s.runMachine := by
    simp only [runMachine, run, status]
    cases s.state.status <;> rfl
  rw [ran, ran, same]
  exact ⟨rfl, rfl⟩

/-- A renamed stream goes on as the stream does. -/
theorem advance_rename {n : Nat}
    (executes : Executes s.program s.buffer s.state n (Machine.run s.program s.buffer s.state)) :
    (s.rename ν p).advance = Prod.map (rename ν p) id s.advance := by
  obtain ⟨ran, fault⟩ := ran_rename whole executes
  have trouble : (s.ran.rename ν p).trouble? s.runMachine.2 = s.ran.trouble? s.runMachine.2 := rfl
  rw [advance_eq, advance_eq, ran, fault, trouble]
  cases s.ran.trouble? s.runMachine.2 with
  | some end_ => exact fail_rename (s := s.ran) whole end_.1 end_.2
  | none => rfl

theorem finish_rename {n : Nat}
    (executes : Executes s.program s.buffer s.state n (Machine.run s.program s.buffer s.state)) :
    (s.rename ν p).finish = Prod.map (rename ν p) id s.finish := by
  have program : s.advance.1.program = s.program := by
    rw [advance_eq]
    split <;> rfl
  have failed : ∀ status, (s.advance.1.rename ν p).fail (.internal (.unsettled status)) s.advance.1.position =
      Prod.map (rename ν p) id (s.advance.1.fail (.internal (.unsettled status)) s.advance.1.position :
        Stream × Except ParseError Value) :=
    fun status => fail_rename (s := s.advance.1) (program ▸ whole) _ _
  rw [finish, finish, advance_rename whole executes]
  generalize s.advance = answer at failed
  obtain ⟨t, e | status⟩ := answer
  · rfl
  · cases status with
    | passed => rfl
    | running => exact failed .running
    | waiting => exact failed .waiting
    | failed => exact failed .failed

end Stream

/-- Parsers whose programs are the same but for numbers parse alike. -/
theorem Parser.parse_renumbered {g : AnnotatedGrammar} {library : Library} {ν : Renaming}
    {parser parser' : Parser} (program : parser.program = Program.ofGrammar g library) (linked : g.Linked)
    (whole : parser.program.Renumbered ν parser'.program) {text : String}
    (fits : text.utf8ByteSize ≤ Buffer.maxOffset) : parser'.parse text = parser.parse text := by
  have start : Stream.start parser'.program (Buffer.complete text) =
      (Stream.start parser.program (Buffer.complete text)).rename ν parser'.program := by
    simp [Stream.start, Stream.rename, State.start, State.rename, whole.root]
  obtain ⟨n, t, fault, executes, -⟩ := (Follows.whole g library fits).settles (s := State.start parser.program)
    linked (congrArg (fun p : Program => some p.root) program)
  rw [← program] at executes
  have runs : Executes parser.program (Buffer.complete text) (State.start parser.program) n
      (Machine.run parser.program (Buffer.complete text) (State.start parser.program)) :=
    executes.run_eq ▸ executes
  rw [parse, parse, start, Stream.finish_rename whole runs]
  rfl

end PegFlow
