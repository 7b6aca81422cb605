/-
# PegFlow.Proofs.Machine.Stops -- every run stops

`Machine.Reachable` are the states a parse is in between its runs, whatever text is
appended, when the end is said and how often the machine is run. From each of them a run
executes finitely many ops, and never are two calls under way of one ruleset at one
offset (`Machine.Reachable.run_stops`).
-/
import PegFlow.Proofs.Machine.Settles
import PegFlow.Proofs.Meaning.Agreement

namespace PegFlow

set_option autoImplicit false

namespace Machine

/-- The states of a parse between its runs. -/
inductive Reachable (p : Program) : Buffer → State → Prop
  | start (minRetained : Nat) : Reachable p (Buffer.empty minRetained) (State.start p)
  | append {b b' : Buffer} {s : State} {text : String} (before : Reachable p b s)
      (appended : b.append text = .ok b') (fits : b'.length ≤ Buffer.maxOffset) : Reachable p b' s
  | close {b : Buffer} {s : State} (before : Reachable p b s) : Reachable p b.close s
  | run {b : Buffer} {s s' : State} {fault : Option Fault} (before : Reachable p b s)
      (ran : run p b s = (s', fault)) : Reachable p b s'

variable {p : Program} {b : Buffer} {n op op' : Nat} {s s' : State}

theorem Steps.distinct (h : Steps p b n op s op' s') (distinct : s.keys.Nodup) : s'.keys.Nodup := by
  induction h with
  | stay => exact distinct
  | @more n op op' op'' s s' s'' taken _ ih =>
      have shape := (step_within p b op s).calls
      rw [taken] at shape
      exact ih (shape.nodup distinct)

theorem Executes.distinct {t : State} {fault : Option Fault} (h : Executes p b s n (t, fault))
    (distinct : s.keys.Nodup) : t.keys.Nodup := by
  cases h with
  | idle => exact distinct
  | @halts n op op' s' t pending steps halt =>
      have shape := (step_within p b op' s').calls
      rw [halt] at shape
      exact shape.nodup (steps.distinct distinct)
  | @faults n op op' s' t f pending steps faulted =>
      have shape := (step_within p b op' s').calls
      rw [faulted] at shape
      exact shape.nodup (steps.distinct distinct)

end Machine

open Machine

/-- A parse between its runs: the buffer shows the text so far, calls under way are
distinct, and where the parse goes on it follows the runs over every whole text. -/
structure Rests (g : AnnotatedGrammar) (library : Library) (b : Buffer) (P : String) (s : State) :
    Prop where
  shows : b.Shows P
  fits : P.utf8ByteSize ≤ Buffer.maxOffset
  distinct : s.keys.Nodup
  goesOn : ∀ op, s.pending = some op → Follows g library b P op s.resumed

namespace Rests

variable {g : AnnotatedGrammar} {library : Library} {b : Buffer} {P : String} {s : State}

theorem start (g : AnnotatedGrammar) (library : Library) (minRetained : Nat) :
    Rests g library (Buffer.empty minRetained) "" (State.start (Program.ofGrammar g library)) := by
  refine ⟨Buffer.shows_empty minRetained, by simp, List.nodup_nil, ?_⟩
  rintro _ ⟨⟩
  exact Follows.start g library minRetained

theorem close (h : Rests g library b P s) : Rests g library b.close P s :=
  ⟨h.shows.close, h.fits, h.distinct, fun op pending => (h.goesOn op pending).close⟩

theorem append {b' : Buffer} {text : String} (h : Rests g library b P s)
    (appended : b.append text = .ok b') (fits : b'.length ≤ Buffer.maxOffset) :
    Rests g library b' (P ++ text) s := by
  have isOpen : b.closed = false := Buffer.isOpen_of_append appended
  obtain ⟨b'', appended', -, -, shows⟩ := Buffer.append_of_open isOpen text
  cases appended.symm.trans appended'
  have fits' : (P ++ text).utf8ByteSize ≤ Buffer.maxOffset := (shows P h.shows).length_eq ▸ fits
  exact ⟨shows P h.shows, fits', h.distinct, fun op pending =>
    (h.goesOn op pending).append isOpen appended fits'⟩

/-- A run executes finitely many ops. -/
theorem executes (h : Rests g library b P s) (linked : g.Linked) :
    ∃ n, Executes (Program.ofGrammar g library) b s n (run (Program.ofGrammar g library) b s) := by
  cases pending : s.pending with
  | none =>
      rw [run, pending]
      exact ⟨0, .idle pending⟩
  | some op =>
      obtain ⟨n, t, fault, executes, -⟩ := (h.goesOn op pending).settles linked pending
      rw [executes.run_eq]
      exact ⟨n, executes⟩

/-- After a run the parse rests again. -/
theorem run {s' : State} {fault : Option Fault} (h : Rests g library b P s) (linked : g.Linked)
    (ran : Machine.run (Program.ofGrammar g library) b s = (s', fault)) :
    Rests g library b P s' := by
  cases pending : s.pending with
  | none =>
      rw [Machine.run, pending] at ran
      cases ran
      exact h
  | some op =>
      obtain ⟨n, t, fault', executes, settles⟩ := (h.goesOn op pending).settles linked pending
      cases executes.run_eq.symm.trans ran
      exact ⟨h.shows, h.fits, executes.distinct h.distinct, fun o waits => settles.goesOn linked waits⟩

end Rests

/-- Between its runs a parse rests. -/
theorem Machine.Reachable.rests {g : AnnotatedGrammar} {library : Library} {b : Buffer} {s : State}
    (linked : g.Linked) (h : Reachable (Program.ofGrammar g library) b s) :
    ∃ P, Rests g library b P s := by
  induction h with
  | start minRetained => exact ⟨"", .start g library minRetained⟩
  | append _ appended fits ih =>
      obtain ⟨P, rests⟩ := ih
      exact ⟨_, rests.append appended fits⟩
  | close _ ih =>
      obtain ⟨P, rests⟩ := ih
      exact ⟨P, rests.close⟩
  | run _ ran ih =>
      obtain ⟨P, rests⟩ := ih
      exact ⟨P, rests.run linked ran⟩

/-- From every state a parse can be in a run executes finitely many ops, and calls under way
are distinct in that state and in every state within the run. -/
theorem Machine.Reachable.run_stops {g : Grammar} {callbacks : List String} {a : AnnotatedGrammar}
    (accepted : g.annotate? callbacks = .ok a) (library : Library) {b : Buffer} {s : State}
    (reachable : Reachable (Program.ofGrammar a library) b s) :
    (∃ n, Executes (Program.ofGrammar a library) b s n
      (Machine.run (Program.ofGrammar a library) b s)) ∧
    s.keys.Nodup ∧
    ∀ op, s.pending = some op → ∀ n op' s',
      Steps (Program.ofGrammar a library) b n op s.resumed op' s' → s'.keys.Nodup := by
  obtain ⟨P, rests⟩ := reachable.rests (Grammar.annotate?_linked accepted)
  refine ⟨rests.executes (Grammar.annotate?_linked accepted), rests.distinct, ?_⟩
  intro op _ n op' s' steps
  exact steps.distinct rests.distinct

/-- A sum that has come as far as its plus sign, with a digit to come. -/
theorem Machine.Reachable.run_stops_in_sum : ∃ a b b' s, Grammar.sums.annotate? [] = .ok a ∧
    (Buffer.empty 0).append "1+" = .ok b ∧ b.append "2" = .ok b' ∧
    s = (Machine.run (Program.ofGrammar a {}) b (State.start (Program.ofGrammar a {}))).1 ∧
    Reachable (Program.ofGrammar a {}) b' s ∧
    (∃ n, Executes (Program.ofGrammar a {}) b' s n (Machine.run (Program.ofGrammar a {}) b' s)) ∧
    s.keys.Nodup := by
  obtain ⟨a, accepted⟩ := Grammar.sums_accepted
  obtain ⟨b, first⟩ : ∃ b, (Buffer.empty 0).append "1+" = .ok b := Except.eq_ok_of_isSome (by decide +kernel)
  obtain ⟨b', second⟩ : ∃ b', b.append "2" = .ok b' := Except.eq_ok_of_isSome (by cases first; decide +kernel)
  have reachable := (((Reachable.start (p := Program.ofGrammar a {}) 0).append first
    (by cases first; decide +kernel)).run rfl).append second (by cases first; cases second; decide +kernel)
  have stops := run_stops accepted {} reachable
  exact ⟨a, b, b', _, accepted, first, second, rfl, reachable, stops.1, stops.2.1⟩

end PegFlow
