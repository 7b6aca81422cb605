/-
# PegFlow.Proofs.Machine.Path -- steps one after the other

`InRange p T op s` says that all that the op reads is there: no index is too great, no
stack is empty, and text is read between boundaries. `Reaches p T op s op' s'` is a path
of such steps over the whole text `T`.

The machine is deterministic, so what a path reaches lies on every way to the end
(`Reaches.linear`), and a run over the whole text takes the path to its end
(`Reaches.settle_eq`).
-/
import PegFlow.Machine.Run
import PegFlow.Proofs.Text.Cut

namespace PegFlow.Machine

set_option autoImplicit false

open Text

/-- All that the op at a place reads is there. -/
def InRange (p : Program) (T : String) (op : Nat) (s : State) : Prop :=
  match p.ops[op]? with
  | none => False
  | some (.commit _) => s.marks ≠ []
  | some (.rollback _) => s.marks ≠ []
  | some (.lookExit _) => ∃ m rest, s.marks = m :: rest ∧ IsBoundary T m.pos
  | some (.loopNext ..) => s.loops ≠ []
  | some (.loopExit ..) => s.loops ≠ []
  | some (.captureEnd ..) =>
    ∃ start rest, s.captureStarts = start :: rest ∧ start ≤ s.pos ∧
      IsBoundary T start ∧ IsBoundary T s.pos
  | some (.captureFail _) => s.captureStarts ≠ []
  | some (.terminal id _ _) => id < p.terminals.size ∧ IsBoundary T s.pos
  | some (.call ruleset _ _) => ruleset < p.entries.size
  | some (.output rule _) =>
    rule < p.rules.size ∧ ∃ f rest, s.frames = f :: rest ∧ f.captureBase ≤ s.captures.size ∧
      f.start ≤ s.pos ∧ IsBoundary T f.start ∧ IsBoundary T s.pos
  | some .ret => ∃ f rest, s.frames = f :: rest ∧ f.ruleset < p.entries.size
  | some .retFail => ∃ f rest, s.frames = f :: rest ∧ f.ruleset < p.entries.size
  | some _ => True

/-- Steps over the whole text, each in range, lead from one op and state to another. -/
inductive Reaches (p : Program) (T : String) : Nat → State → Nat → State → Prop
  | here (op : Nat) (s : State) : Reaches p T op s op s
  | onward {op op' op'' : Nat} {s s' s'' : State} (range : InRange p T op s)
      (taken : step p (Buffer.complete T) op s = .next op' s')
      (rest : Reaches p T op' s' op'' s'') : Reaches p T op s op'' s''

/-- A path leads to a fault. -/
def Faults (p : Program) (T : String) (op : Nat) (s : State) (f : Fault) : Prop :=
  ∃ op' s' s'', Reaches p T op s op' s' ∧ InRange p T op' s' ∧
    step p (Buffer.complete T) op' s' = .fault f s''

/-- A lookahead is to end, and by the count none is open. -/
def Uncounted (p : Program) (op : Nat) (s : State) : Prop :=
  s.quiet = 0 ∧ ∃ next, p.ops[op]? = some (.lookExit next)

/-- A path leads to where so many lookaheads are open that they cannot be counted. -/
def Overflows (p : Program) (T : String) (op : Nat) (s : State) : Prop :=
  ∃ op' s', Reaches p T op s op' s' ∧ InRange p T op' s' ∧ Uncounted p op' s'

variable {p : Program} {T : String} {op op' op'' : Nat} {s s' s'' : State}

theorem Reaches.one (range : InRange p T op s)
    (taken : step p (Buffer.complete T) op s = .next op' s') : Reaches p T op s op' s' :=
  .onward range taken (.here op' s')

theorem Reaches.trans (first : Reaches p T op s op' s') (second : Reaches p T op' s' op'' s'') :
    Reaches p T op s op'' s'' := by
  induction first with
  | here => exact second
  | onward range taken _ ih => exact .onward range taken (ih second)

theorem Faults.after {f : Fault} (first : Reaches p T op s op' s') (then_ : Faults p T op' s' f) :
    Faults p T op s f := by
  obtain ⟨o, t, u, path, range, fault⟩ := then_
  exact ⟨o, t, u, first.trans path, range, fault⟩

theorem Faults.one {f : Fault} (range : InRange p T op s)
    (fault : step p (Buffer.complete T) op s = .fault f s') : Faults p T op s f :=
  ⟨op, s, s', .here op s, range, fault⟩

theorem Overflows.after (first : Reaches p T op s op' s') (then_ : Overflows p T op' s') :
    Overflows p T op s := by
  obtain ⟨o, t, path, range, uncounted⟩ := then_
  exact ⟨o, t, first.trans path, range, uncounted⟩

/-- Where lookaheads cannot be counted the machine stops. -/
theorem Uncounted.step_eq (uncounted : Uncounted p op s) (range : InRange p T op s) (b : Buffer) :
    ∃ t, step p b op s = .defect .noPredicate t ∧ IsBoundary T t.pos := by
  obtain ⟨none, next, exit⟩ := uncounted
  rw [InRange, exit] at range
  obtain ⟨m, rest, marks, boundary⟩ := range
  simp only [step, exit, State.stopLooking, marks, State.keepCaptures, none, if_true]
  exact ⟨_, rfl, boundary⟩

/-- Of two paths from one place, one goes on where the other ends. -/
theorem Reaches.linear (one : Reaches p T op s op' s') (other : Reaches p T op s op'' s'') :
    Reaches p T op' s' op'' s'' ∨ Reaches p T op'' s'' op' s' := by
  induction one with
  | here => exact Or.inl other
  | onward range taken rest ih =>
      cases other with
      | here => exact Or.inr (.onward range taken rest)
      | onward _ taken' rest' =>
          cases taken.symm.trans taken'
          exact ih rest'

/-- A path ends where the machine does not go on. -/
theorem Reaches.eq_of_stop (path : Reaches p T op s op' s')
    (stop : ∀ o t, step p (Buffer.complete T) op s ≠ .next o t) : op' = op ∧ s' = s := by
  cases path with
  | here => exact ⟨rfl, rfl⟩
  | onward _ taken _ => exact absurd taken (stop _ _)

theorem Reaches.settle_eq (path : Reaches p T op s op' s') :
    State.settle p (Buffer.complete T) op s = State.settle p (Buffer.complete T) op' s' := by
  induction path with
  | here => rfl
  | onward _ taken _ ih =>
      rw [State.settle, taken]
      exact ih

end PegFlow.Machine
