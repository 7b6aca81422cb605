/-
# PegFlow.Proofs.Machine.Settles -- what a run over the text so far comes to

From an op at which it follows the runs over whole texts, a run executes finitely many ops
(`Executes`) and comes to a state, perhaps at a fault (`Follows.settles`). What it comes to
is what the run over every whole text comes to that begins with the text so far, unless it
waits for more text or text is needed that was let go (`Settles.agree`). A fault it comes to
is possible (`Settles.possible`).

A parse that has met no fault stands where it goes on at an op, or where it has accepted
(`Stands`).
-/
import PegFlow.Proofs.Machine.Follow
import PegFlow.Proofs.Machine.Sound

namespace PegFlow

set_option autoImplicit false

open Text

namespace Machine

/-- A run from the state executes so many ops and ends with this result. -/
inductive Executes (p : Program) (b : Buffer) (s : State) : Nat → State × Option Fault → Prop
  | idle (halted : s.pending = none) : Executes p b s 0 (s, none)
  | halts {n op op' : Nat} {s' t : State} (pending : s.pending = some op)
      (steps : Steps p b n op s.resumed op' s') (halt : step p b op' s' = .halt t) :
      Executes p b s (n + 1) (t, none)
  | faults {n op op' : Nat} {s' t : State} {f : Fault} (pending : s.pending = some op)
      (steps : Steps p b n op s.resumed op' s') (fault : step p b op' s' = .fault f t) :
      Executes p b s (n + 1) (t, some f)

variable {p : Program} {b : Buffer} {n op op' : Nat} {s s' : State}

theorem run_eq_settle (pending : s.pending = some op) : run p b s = s.resumed.settle p b op := by
  rw [run, pending]
  rfl

theorem Executes.run_eq {result : State × Option Fault} (h : Executes p b s n result) :
    run p b s = result := by
  cases h with
  | idle halted => rw [run, halted]
  | halts pending steps halt => rw [run_eq_settle pending, steps.settle_eq, State.settle, halt]
  | faults pending steps fault => rw [run_eq_settle pending, steps.settle_eq, State.settle, fault]

theorem Steps.running (h : Steps p b n op s op' s') (pending : s.pending = none)
    (status : s.status = .running) : s'.pending = none ∧ s'.status = .running := by
  induction h with
  | stay => exact ⟨pending, status⟩
  | @more n op op' op'' s s' s'' taken _ ih =>
      have same := (step_within p b op s).running op' s' taken
      exact ih (same.1.trans pending) (same.2.trans status)

theorem resumed_waitingAt (pending : s.pending = none)
    (status : s.status = .running) : (s.waitingAt op).resumed = s := by
  rw [State.waitingAt, State.resumed, ← pending, ← status]

end Machine

open Machine

/-- The turn with which a run ends in a state, at a fault if there is one. -/
def Progress.ended (t : State) : Option Fault → Progress
  | none => .halt t
  | some f => .fault f t

theorem Progress.ended_inj {t t' : State} {fault fault' : Option Fault}
    (h : ended t fault = ended t' fault') : t = t' ∧ fault = fault' := by
  cases fault <;> cases fault' <;> cases h <;> exact ⟨rfl, rfl⟩

theorem Progress.ended_ne_next (t : State) (fault : Option Fault) (op : Nat) (s : State) :
    ended t fault ≠ .next op s := by
  cases fault <;> exact fun h => nomatch h

variable (g : AnnotatedGrammar) (library : Library) (b : Buffer) (P : String)

/-- Where a parse is that has met no fault. -/
inductive Stands : State → Prop
  | goesOn {op : Nat} {s : State} (pending : s.pending = some op)
      (status : s.status = .running ∨ s.status = .waiting)
      (follows : Follows g library b P op s.resumed) : Stands s
  | accepted {op : Nat} {u : State} (accept : (Program.ofGrammar g library).ops[op]? = some .accept)
      (pending : u.pending = none) (status : u.status = .running)
      (follows : Follows g library b P op u) : Stands u.accepted

/-- What a run over the text so far comes to. -/
inductive Settles (t : State) (fault : Option Fault) : Prop
  | intro {op : Nat} {u : State} (pending : u.pending = none) (status : u.status = .running)
      (follows : Follows g library b P op u)
      (ended : step (Program.ofGrammar g library) b op u = Progress.ended t fault)

variable {g library b P}

namespace Stands

variable {s : State}

theorem start (g : AnnotatedGrammar) (library : Library) (minRetained : Nat) :
    Stands g library (Buffer.empty minRetained) "" (State.start (Program.ofGrammar g library)) :=
  .goesOn rfl (Or.inl rfl) (.start g library minRetained)

theorem whole (g : AnnotatedGrammar) (library : Library) {T : String}
    (fits : T.utf8ByteSize ≤ Buffer.maxOffset) :
    Stands g library (Buffer.complete T) T (State.start (Program.ofGrammar g library)) :=
  .goesOn rfl (Or.inl rfl) (.whole g library fits)

theorem imp {b' : Buffer} {P' : String} (h : Stands g library b P s)
    (next : ∀ op u, Follows g library b P op u → Follows g library b' P' op u) :
    Stands g library b' P' s := by
  cases h with
  | goesOn pending status follows => exact .goesOn pending status (next _ _ follows)
  | accepted accept pending status follows => exact .accepted accept pending status (next _ _ follows)

theorem close (h : Stands g library b P s) : Stands g library b.close P s :=
  h.imp fun _ _ follows => follows.close

theorem append {b' : Buffer} {text : String} (h : Stands g library b P s) (isOpen : b.closed = false)
    (appended : b.append text = .ok b') (fits : (P ++ text).utf8ByteSize ≤ Buffer.maxOffset) :
    Stands g library b' (P ++ text) s :=
  h.imp fun _ _ follows => follows.append isOpen appended fits

theorem follows (h : Stands g library b P s) : ∃ op u, Follows g library b P op u := by
  cases h with
  | goesOn _ _ follows => exact ⟨_, _, follows⟩
  | accepted _ _ _ follows => exact ⟨_, _, follows⟩

theorem shows (h : Stands g library b P s) : b.Shows P := by
  obtain ⟨op, u, follows⟩ := h.follows
  exact follows.shows

theorem fits (h : Stands g library b P s) : P.utf8ByteSize ≤ Buffer.maxOffset := by
  obtain ⟨op, u, follows⟩ := h.follows
  exact follows.fits

end Stands

/-- A run executes finitely many ops and comes to something. -/
theorem Follows.settles {op : Nat} {s : State} (follows : Follows g library b P op s.resumed)
    (linked : g.Linked) (pending : s.pending = some op) :
    ∃ n t fault, Executes (Program.ofGrammar g library) b s n (t, fault) ∧
      Settles g library b P t fault := by
  obtain ⟨n, op', s', steps, stops⟩ := follows.stops linked
  have running := steps.running rfl rfl
  have there := follows.steps linked steps
  cases turn : PegFlow.step (Program.ofGrammar g library) b op' s' with
  | next o t => exact absurd turn (stops o t)
  | halt t => exact ⟨n + 1, t, none, .halts pending steps turn, .intro running.1 running.2 there turn⟩
  | fault f t => exact ⟨n + 1, t, some f, .faults pending steps turn, .intro running.1 running.2 there turn⟩

namespace Settles

variable {t t' : State} {fault fault' : Option Fault}

/-- Where a run left an op to go on with, it follows the runs over whole texts. -/
theorem goesOn {op : Nat} (h : Settles g library b P t fault) (linked : g.Linked)
    (pending : t.pending = some op) : Follows g library b P op t.resumed := by
  obtain ⟨idle, status, follows, ended⟩ := h
  cases fault with
  | none =>
      rcases follows.halted linked ended with ⟨-, rfl⟩ | ⟨-, rfl⟩ | ⟨-, rfl⟩
      · cases pending
        rwa [resumed_waitingAt idle status]
      · cases idle.symm.trans pending
      · cases idle.symm.trans pending
  | some f =>
      have same := (step_within _ _ _ _).faulted f t ended
      cases (same.trans idle).symm.trans pending

/-- A run without a fault ends where the parse stands, or the program rejected. -/
theorem stands (h : Settles g library b P t none) (linked : g.Linked) :
    (b.closed = false ∧ t.status = .waiting ∧ Stands g library b P t) ∨
      (t.status = .passed ∧ Stands g library b P t) ∨ t.status = .failed := by
  obtain ⟨pending, status, follows, halted⟩ := h
  rcases follows.halted linked halted with ⟨isOpen, rfl⟩ | ⟨accept, rfl⟩ | ⟨-, rfl⟩
  · refine Or.inl ⟨isOpen, rfl, .goesOn rfl (Or.inr rfl) ?_⟩
    rwa [resumed_waitingAt pending status]
  · exact Or.inr (Or.inl ⟨rfl, .accepted accept pending status follows⟩)
  · exact Or.inr (Or.inr rfl)

theorem furthest_le (h : Settles g library b P t fault) (linked : g.Linked) :
    t.furthest ≤ P.utf8ByteSize := by
  obtain ⟨-, -, follows, ended⟩ := h
  have le := (follows.inRange linked).furthest_le follows.furthest_le b
  rw [ended] at le
  cases fault <;> exact le

/-- A fault that a run comes to is possible, or lookaheads cannot be counted, and it is at a
boundary of the text. -/
theorem possible {f : Fault} (h : Settles g library b P t (some f)) (linked : g.Linked)
    (configured : (Program.ofGrammar g library).Configured) :
    IsBoundary P t.pos ∧ (f.Possible (0 < b.start) ∨ f = .internal .noPredicate) := by
  obtain @⟨op, u, -, -, follows, ended⟩ := h
  have range := follows.inRange linked
  by_cases uncounted : Uncounted (Program.ofGrammar g library) op u
  · obtain ⟨t', fault, boundary⟩ := uncounted.step_eq range b
    cases fault.symm.trans ended
    exact ⟨boundary, Or.inr rfl⟩
  · obtain ⟨boundary, possible⟩ := step_blameless follows.shows follows.fits configured range uncounted f t ended
    exact ⟨boundary, Or.inl possible⟩

/-- A run over the text so far comes to what the run over a whole text comes to that goes on
from there, or it waits for more text, or text is needed that was let go. -/
theorem agree {more : String} (here : Settles g library b P t fault) (linked : g.Linked)
    (ended : b.closed = true → more = "")
    (there : Settles g library (Buffer.complete (P ++ more)) (P ++ more) t' fault') :
    (t = t' ∧ fault = fault') ∨ (fault = none ∧ t.status = .waiting) ∨
      (0 < b.start ∧ ∃ offset retainedFrom, fault = some (.inputFreed offset retainedFrom)) := by
  obtain @⟨op, u, -, -, follows, turn⟩ := here
  obtain @⟨op', u', -, -, follows', turn'⟩ := there
  have stops' : Stops (Program.ofGrammar g library) (Buffer.complete (P ++ more)) op' u' := by
    rw [Stops, turn']
    exact Progress.ended_ne_next t' fault'
  have path' := follows'.path "" (fun _ => rfl) follows'.fits_whole
  rw [String.append_empty] at path'
  rcases follows.window linked ended follows'.fits with same | ⟨-, halted⟩ | ⟨evicted, _, _, _, freed⟩
  · have whole := same.symm.trans turn
    have stops : Stops (Program.ofGrammar g library) (Buffer.complete (P ++ more)) op u := by
      rw [Stops, whole]
      exact Progress.ended_ne_next t fault
    have one : Progress.ended t fault = Progress.ended t' fault' := by
      rcases (follows.path more ended follows'.fits).linear path' with rest | rest
      · obtain ⟨rfl, rfl⟩ := rest.eq_of_stop stops
        exact whole.symm.trans turn'
      · obtain ⟨rfl, rfl⟩ := rest.eq_of_stop stops'
        exact whole.symm.trans turn'
    exact Or.inl (Progress.ended_inj one)
  · refine Or.inr (Or.inl ?_)
    cases fault with
    | none =>
        cases turn.symm.trans halted
        exact ⟨rfl, rfl⟩
    | some f => cases turn.symm.trans halted
  · refine Or.inr (Or.inr ⟨evicted, ?_⟩)
    cases fault with
    | none => cases turn.symm.trans freed
    | some f =>
        cases turn.symm.trans freed
        exact ⟨_, _, rfl⟩

end Settles

end PegFlow
