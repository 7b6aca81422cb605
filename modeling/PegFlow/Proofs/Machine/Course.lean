/-
# PegFlow.Proofs.Machine.Course -- what is executed in a parse

A `Course` of a parse is all that was executed up to a moment of it, over whatever text had
come by then, with all waits for more text.

How many lookaheads are open at a moment is said by the place of the op and the places where
the calls under way go on (`State.ahead`). The machine counts them as it goes, in 32 bits
(`Course.level`). Where they are never more over a buffer than can be counted (`Shallow`) no
lookahead ends that is not counted (`Shallow.counted`), and so it is over every buffer that is
not too long for the grammar (`Shallow.of_length`).
-/
import PegFlow.Proofs.Machine.Control
import PegFlow.Proofs.Machine.Settles
import PegFlow.Proofs.Machine.Visit
import PegFlow.Proofs.Program.Depth

namespace PegFlow

set_option autoImplicit false

open Text

/-- How an op changes the number of lookaheads that are open. -/
def Op.Quiets (before after : UInt32) : Op → Prop
  | .lookEnter _ => after = before + 1
  | .lookExit _ => before = after + 1
  | _ => after = before

/-- What the machine knows of failures: the furthest position, and what was expected there. -/
def State.failures (s : State) : Nat × List Nat := (s.furthest, s.expected)

/-- The op that is next in a parse, the state it finds, and the text that has come. -/
structure Moment where
  buffer : Buffer
  op : Nat
  state : State

namespace Moment

/-- What the op makes of the state. -/
def turn (p : Program) (m : Moment) : Progress := step p m.buffer m.op m.state

/-- The terminal that fails, if the op tests one and it fails. -/
def failed? (p : Program) (m : Moment) : Option Nat :=
  match p.ops[m.op]? with
  | some (.terminal id _ _) =>
    match p.terminals[id]? with
    | some t =>
      match t.matchAt m.buffer m.state.pos with
      | .ok none => some id
      | .error .endOfInput => some id
      | _ => none
    | none => none
  | _ => none

/-- What the machine knows of failures after the op. -/
def knows (p : Program) (m : Moment) : Nat × List Nat :=
  match m.failed? p with
  | none => m.state.failures
  | some id => (m.state.noteFailure id).failures

end Moment

/-- How many lookaheads are around the places where calls go on that matched. -/
def Program.depthsAround (g : AnnotatedGrammar) : List (Nat × Nat) → Nat
  | [] => 0
  | e :: rest => depthAt g e.1 + depthsAround g rest

theorem Program.depthsAround_eq_zero_iff {g : AnnotatedGrammar} {exits : List (Nat × Nat)} :
    depthsAround g exits = 0 ↔ ∀ e ∈ exits, depthAt g e.1 = 0 := by
  induction exits with
  | nil => exact iff_of_true rfl (List.forall_mem_nil _)
  | cons e rest ih => rw [depthsAround, Nat.add_eq_zero_iff, ih, List.forall_mem_cons]

theorem Program.depthsAround_le (g : AnnotatedGrammar) (exits : List (Nat × Nat)) :
    depthsAround g exits ≤ deepest g * exits.length := by
  induction exits with
  | nil => exact Nat.zero_le _
  | cons e rest ih =>
      have first := depthAt_le_deepest g e.1
      rw [depthsAround, List.length_cons, Nat.mul_succ]
      omega

/-- How many lookaheads are open: those around the op that is next, and around the places where
the calls under way go on. -/
def State.ahead (g : AnnotatedGrammar) (op : Nat) (s : State) : Nat :=
  Program.depthAt g op + Program.depthsAround g s.exits

/-- The machine counts the lookaheads that are open, in 32 bits. -/
structure State.Level (g : AnnotatedGrammar) (op : Nat) (s : State) : Prop where
  quiet : s.quiet = UInt32.ofNat (s.ahead g op)
  exits : ∀ e ∈ s.exits, Program.depthAt g e.2 = Program.depthAt g e.1

/-! ## One step -/

/-- What a step makes of lookaheads and failures. -/
structure Progress.Notes (p : Program) (b : Buffer) (op : Nat) (s : State) (turn : Progress) : Prop where
  quiet : ∀ op' t, turn = .next op' t → ∃ o, p.ops[op]? = some o ∧ o.Quiets s.quiet t.quiet
  failures : turn.state.failures = Moment.knows p ⟨b, op, s⟩

namespace Progress.Notes

variable {p : Program} {b : Buffer} {op op' : Nat} {o : Op} {s t : State}

theorem next (held : p.ops[op]? = some o) (quiet : o.Quiets s.quiet t.quiet)
    (failures : t.failures = Moment.knows p ⟨b, op, s⟩) : Notes p b op s (.next op' t) := by
  refine ⟨?_, failures⟩
  rintro _ _ ⟨⟩
  exact ⟨o, held, quiet⟩

theorem fault {f : Fault} (failures : t.failures = Moment.knows p ⟨b, op, s⟩) :
    Notes p b op s (.fault f t) :=
  ⟨(fun _ _ h => nomatch h), failures⟩

theorem halt (failures : t.failures = Moment.knows p ⟨b, op, s⟩) : Notes p b op s (.halt t) :=
  ⟨(fun _ _ h => nomatch h), failures⟩

end Progress.Notes

namespace Machine

open Progress

section

variable {p : Program} {b : Buffer} {op : Nat} {s : State} {o : Op}

theorem noteFailure_quiet (s : State) (id : Nat) : (s.noteFailure id).quiet = s.quiet :=
  (s.noteFailure_failed id).kept.quiet

theorem recordNulls_failures (s : State) (slots : List Nat) :
    (s.recordNulls slots).failures = s.failures := by
  induction slots generalizing s with
  | nil => rfl
  | cons slot rest ih => exact ih (s.record slot .null)

theorem testTerminal_notes {id pass fail : Nat} (held : p.ops[op]? = some (.terminal id pass fail)) :
    Notes p b op s (State.testTerminal p b s op id pass fail) := by
  have known : Moment.knows p ⟨b, op, s⟩ = match Moment.failed? p ⟨b, op, s⟩ with
      | none => s.failures
      | some id => (s.noteFailure id).failures := rfl
  simp only [Moment.failed?, held] at known
  rw [State.testTerminal]
  cases found : p.terminals[id]? with
  | none =>
      rw [found] at known
      exact .fault known.symm
  | some t =>
      rw [found] at known
      dsimp only at known ⊢
      cases tested : t.matchAt b s.pos with
      | ok size => cases size with
        | none =>
            rw [tested] at known
            exact .next held (noteFailure_quiet s id) known.symm
        | some size =>
            rw [tested] at known
            exact .next held rfl known.symm
      | error e =>
          rw [tested] at known
          cases e with
          | endOfInput => exact .next held (noteFailure_quiet s id) known.symm
          | needInput => exact .halt known.symm
          | _ => exact .fault known.symm

variable (held : p.ops[op]? = some o) (quiet : o.Quiets s.quiet s.quiet)
variable (still : s.failures = Moment.knows p ⟨b, op, s⟩)

include held quiet still

theorem leaveLoop_notes (least pass fail : Nat) : Notes p b op s (s.leaveLoop least pass fail) := by
  rw [State.leaveLoop]
  split
  · exact .fault still
  · exact .next held quiet still

theorem goBack_notes (next : Nat) : Notes p b op s (s.goBack next) := by
  rw [State.goBack]
  split
  · exact .fault still
  · exact .next held quiet still

theorem nextRound_notes (body least pass fail : Nat) : Notes p b op s (s.nextRound body least pass fail) := by
  rw [State.nextRound]
  split
  · exact .fault still
  · split
    · rename_i l rest loops _
      rw [State.leaveLoop]
      split
      · exact .fault still
      · exact .next held quiet still
    · exact .next held quiet still

theorem endCapture_notes (slot : Nat) (ofRule : Bool) (next : Nat) :
    Notes p b op s (State.endCapture b s slot ofRule next) := by
  rw [State.endCapture]
  split
  · exact .fault still
  · dsimp only
    split
    · exact .next held quiet still
    · split
      · exact .next held quiet still
      · exact .fault still

theorem call_notes (ruleset pass fail : Nat) : Notes p b op s (State.call p s ruleset pass fail) := by
  rw [State.call]
  split
  · dsimp only
    split <;> exact .next held quiet still
  · split
    · exact .fault still
    · exact .next held quiet still

theorem giveOutput_notes (rule next : Nat) : Notes p b op s (State.giveOutput p b s rule next) := by
  rw [State.giveOutput]
  split
  · exact .fault still
  · split
    · exact .fault still
    · split
      · exact .fault still
      · dsimp only
        split
        · exact .next held quiet still
        · exact .fault still

theorem leave_notes : Notes p b op s (State.leave p s) := by
  have leaving := State.leave_leaving p s
  generalize State.leave p s = turn at leaving
  cases leaving with
  | outside | nowhere => exact .fault still
  | result | earlier | again => exact .next held quiet still

theorem leaveFailed_notes : Notes p b op s s.leaveFailed := by
  rw [State.leaveFailed]
  split
  · exact .fault still
  · dsimp only
    split <;> exact .next held quiet still

omit held quiet still

theorem stopLooking_notes {next : Nat} (held : p.ops[op]? = some (.lookExit next))
    (still : s.failures = Moment.knows p ⟨b, op, s⟩) : Notes p b op s (s.stopLooking next) := by
  rw [State.stopLooking]
  split
  · exact .fault still
  · dsimp only
    split
    · exact .fault still
    · exact .next held (UInt32.sub_add_cancel s.quiet 1).symm still

end

/-- A step counts the lookaheads that are open, and notes the failure of a terminal. -/
theorem step_notes (p : Program) (b : Buffer) (op : Nat) (s : State) : Notes p b op s (step p b op s) := by
  have still : (∀ id pass fail, p.ops[op]? ≠ some (.terminal id pass fail)) →
      s.failures = Moment.knows p ⟨b, op, s⟩ := by
    intro other
    have none : Moment.failed? p ⟨b, op, s⟩ = none := by
      rw [Moment.failed?]
      split
      · exact absurd ‹_› (other _ _ _)
      · rfl
    rw [Moment.knows, none]
  cases held : p.ops[op]? with
  | none =>
      simp only [step, held]
      exact .fault (still (by simp [held]))
  | some o =>
      rw [held] at still
      simp only [step, held]
      cases o with
      | terminal id pass fail => exact testTerminal_notes held
      | enter next | lookEnter next | loopEnter body | captureStart next => exact .next held rfl (still (by simp))
      | pushNulls slots next =>
          exact .next held (s.recordNulls_captures slots).2.1.quiet
            ((recordNulls_failures s slots).trans (still (by simp)))
      | commit next | captureFail next =>
          dsimp only
          split
          · exact .fault (still (by simp))
          · exact .next held rfl (still (by simp))
      | rollback next => exact goBack_notes held rfl (still (by simp)) next
      | lookExit next => exact stopLooking_notes held (still (by simp))
      | loopNext body least pass fail => exact nextRound_notes held rfl (still (by simp)) body least pass fail
      | loopExit least pass fail => exact leaveLoop_notes held rfl (still (by simp)) least pass fail
      | captureEnd slot ofRule next => exact endCapture_notes held rfl (still (by simp)) slot ofRule next
      | call ruleset pass fail => exact call_notes held rfl (still (by simp)) ruleset pass fail
      | output rule next => exact giveOutput_notes held rfl (still (by simp)) rule next
      | ret => exact leave_notes held rfl (still (by simp))
      | retFail => exact leaveFailed_notes held rfl (still (by simp))
      | accept | reject => exact .halt (still (by simp))

end Machine

open Machine

/-! ## The lookaheads that are open -/

section

variable {g : AnnotatedGrammar} {library : Library} {b : Buffer} {op op' : Nat} {s t : State}

namespace State.Level

theorem start (g : AnnotatedGrammar) (library : Library) :
    State.Level g (Program.ofGrammar g library).root (State.start (Program.ofGrammar g library)).resumed := by
  refine ⟨?_, List.forall_mem_nil _⟩
  rw [State.ahead, (Program.depths_lead g library).2.1]
  rfl

/-- Each op leads to its own depth, but for those that begin and stop looking ahead, which
change the count along with it. -/
theorem onward (level : s.Level g op) {o : Op} (held : (Program.ofGrammar g library).ops[op]? = some o)
    (target : op' ∈ o.targets) (same : t.exits = s.exits) (quiet : o.Quiets s.quiet t.quiet) :
    t.Level g op' := by
  have leads := (Program.depths_lead g library).2.2 op o held
  refine ⟨?_, same ▸ level.exits⟩
  have count := level.quiet
  rw [State.ahead] at count ⊢
  rw [same]
  cases o with
  | lookEnter next =>
      have deeper : Program.depthAt g next = Program.depthAt g op + 1 := leads
      rw [List.mem_singleton.1 target, deeper, Nat.add_right_comm, UInt32.ofNat_add, ← count]
      exact quiet
  | lookExit next =>
      have before : s.quiet = t.quiet + 1 := quiet
      have deeper : Program.depthAt g next + 1 = Program.depthAt g op := leads
      rw [← deeper, Nat.add_right_comm, UInt32.ofNat_add, before] at count
      rw [List.mem_singleton.1 target]
      exact (UInt32.add_left_inj 1).1 count
  | ret | retFail => cases target
  | _ =>
      rw [show t.quiet = s.quiet from quiet, leads op' target]
      exact count

theorem next (level : s.Level g op) (taken : step (Program.ofGrammar g library) b op s = .next op' t) :
    t.Level g op' := by
  obtain ⟨entries, -, leads⟩ := Program.depths_lead g library
  obtain ⟨o, held, quiet⟩ := (step_notes (Program.ofGrammar g library) b op s).quiet op' t taken
  have lead := leads op o held
  have goes := step_goes (Program.ofGrammar g library) b op s
  have count := level.quiet
  rw [taken] at goes
  cases goes with
  | onward held' target same =>
      cases held.symm.trans held'
      exact level.onward held target same quiet
  | @begins ruleset pass fail entry t held' found more =>
      cases held.symm.trans held'
      have passes : Program.depthAt g pass = Program.depthAt g op := lead pass (by simp [Op.targets])
      have fails : Program.depthAt g fail = Program.depthAt g op := lead fail (by simp [Op.targets])
      have same : t.quiet = s.quiet := quiet
      refine ⟨?_, ?_⟩
      · rw [same, count, State.ahead, State.ahead, more, entries ruleset op' found, Program.depthsAround, passes,
          Nat.zero_add]
      · rw [more]
        exact List.forall_mem_cons.2 ⟨fails.trans passes.symm, level.exits⟩
  | @again ruleset entry t held' found _ same =>
      cases held.symm.trans held'
      have none : Program.depthAt g op = 0 := lead
      have unchanged : t.quiet = s.quiet := quiet
      refine ⟨?_, same ▸ level.exits⟩
      rw [unchanged, count, State.ahead, State.ahead, none, same, entries ruleset op' found]
  | @leaves pass fail op' rest t held' newest exit left =>
      obtain ⟨none, unchanged⟩ : Program.depthAt g op = 0 ∧ t.quiet = s.quiet := by
        rcases held' with held' | held'
        · cases held.symm.trans held'
          exact ⟨lead, quiet⟩
        · cases held.symm.trans held'
          exact ⟨lead, quiet⟩
      have exits := level.exits
      rw [State.ahead, newest] at count
      rw [newest] at exits
      obtain ⟨alike, later⟩ := List.forall_mem_cons.1 exits
      have there : Program.depthAt g op' = Program.depthAt g pass := by
        rcases exit with rfl | rfl
        · rfl
        · exact alike
      refine ⟨?_, left ▸ later⟩
      rw [unchanged, count, State.ahead, none, left, there, Program.depthsAround, Nat.zero_add]

/-- The count tells whether a lookahead is open, where there are not too many. -/
theorem eq_zero_iff (level : s.Level g op) (few : s.ahead g op < UInt32.size) :
    s.quiet = 0 ↔ s.ahead g op = 0 := by
  rw [level.quiet, UInt32.ofNat_eq_iff_mod_eq_toNat]
  simp [Nat.mod_eq_of_lt few]

end State.Level

end

/-! ## Courses -/

/-- What is executed in a parse before a moment of it, newest first. Text comes in pieces of any
size, at any moment; a terminal that needs more of it is executed again. -/
inductive Course (p : Program) : List Moment → Moment → Prop
  | start (minRetained : Nat) : Course p [] ⟨Buffer.empty minRetained, p.root, (State.start p).resumed⟩
  | whole (text : String) : Course p [] ⟨Buffer.complete text, p.root, (State.start p).resumed⟩
  | goes {past : List Moment} {now : Moment} {op : Nat} {s : State} (before : Course p past now)
      (taken : now.turn p = .next op s) : Course p (now :: past) ⟨now.buffer, op, s⟩
  | waits {past : List Moment} {now : Moment} {op : Nat} {s : State} (before : Course p past now)
      (halted : now.turn p = .halt s) (pending : s.pending = some op) :
      Course p (now :: past) ⟨now.buffer, op, s.resumed⟩
  | text {past : List Moment} {now : Moment} {b : Buffer} {text : String} (before : Course p past now)
      (appended : now.buffer.append text = .ok b) : Course p past ⟨b, now.op, now.state⟩
  | ends {past : List Moment} {now : Moment} (before : Course p past now) :
      Course p past ⟨now.buffer.close, now.op, now.state⟩

namespace Course

variable {g : AnnotatedGrammar} {library : Library} {past : List Moment} {now : Moment}

/-- A machine that goes on is not halted. -/
theorem idle {p : Program} (course : Course p past now) :
    now.state.pending = none ∧ now.state.status = .running := by
  induction course with
  | start | whole | waits => exact ⟨rfl, rfl⟩
  | @goes past now op s before taken ih =>
      have same := (step_within p now.buffer now.op now.state).running op s taken
      exact ⟨same.1.trans ih.1, same.2.trans ih.2⟩
  | text _ _ ih => exact ih
  | ends _ ih => exact ih

/-- A machine that waited goes on where it was. -/
theorem resumes {p : Program} (course : Course p past now) {op : Nat} {s : State}
    (halted : now.turn p = .halt s) (pending : s.pending = some op) : op = now.op ∧ s.resumed = now.state := by
  obtain ⟨idle, running⟩ := course.idle
  have goes := step_goes p now.buffer now.op now.state
  rw [Moment.turn] at halted
  rw [halted] at goes
  cases goes with
  | waits =>
      cases pending
      exact ⟨rfl, resumed_waitingAt idle running⟩
  | accepts => cases idle.symm.trans pending
  | rejects => cases idle.symm.trans pending

theorem level (course : Course (Program.ofGrammar g library) past now) : now.state.Level g now.op := by
  induction course with
  | start | whole => exact .start g library
  | goes _ taken ih => exact ih.next taken
  | waits before halted pending ih =>
      obtain ⟨rfl, same⟩ := before.resumes halted pending
      rw [same]
      exact ih
  | text _ _ ih => exact ih
  | ends _ ih => exact ih

/-- At each moment the run is where the runs over whole texts are that begin with the text so far. -/
theorem follows (linked : g.Linked) (course : Course (Program.ofGrammar g library) past now) :
    ∃ P, now.buffer.Shows P ∧
      (P.utf8ByteSize ≤ Buffer.maxOffset → Follows g library now.buffer P now.op now.state) := by
  induction course with
  | start minRetained => exact ⟨"", Buffer.shows_empty minRetained, fun _ => .start g library minRetained⟩
  | whole text => exact ⟨text, Buffer.shows_complete text, fun fits => .whole g library fits⟩
  | goes _ taken ih =>
      obtain ⟨P, shows, follows⟩ := ih
      exact ⟨P, shows, fun fits => (follows fits).step linked taken⟩
  | waits before halted pending ih =>
      obtain ⟨rfl, same⟩ := before.resumes halted pending
      rw [same]
      exact ih
  | @text past now b text _ appended ih =>
      obtain ⟨P, shows, follows⟩ := ih
      have isOpen := Buffer.isOpen_of_append appended
      obtain ⟨b', appended', -, -, shows'⟩ := Buffer.append_of_open isOpen text
      cases appended.symm.trans appended'
      refine ⟨P ++ text, shows' P shows, fun fits => (follows ?_).append isOpen appended fits⟩
      rw [String.utf8ByteSize_append] at fits
      omega
  | ends _ ih =>
      obtain ⟨P, shows, follows⟩ := ih
      exact ⟨P, shows.close, fun fits => (follows fits).close⟩

/-- What is executed over a buffer goes on along with more steps over it. -/
theorem steps {p : Program} {b : Buffer} {n op op' : Nat} {s s' : State}
    (course : Course p past ⟨b, op, s⟩) (steps : Steps p b n op s op' s') :
    ∃ past', Course p past' ⟨b, op', s'⟩ := by
  induction steps generalizing past with
  | stay => exact ⟨past, course⟩
  | more taken _ ih => exact ih (course.goes taken)

/-- A path over a whole text is a course. -/
theorem reaches {p : Program} {T : String} {op op' : Nat} {s s' : State}
    (course : Course p past ⟨Buffer.complete T, op, s⟩) (path : Reaches p T op s op' s') :
    ∃ past', Course p past' ⟨Buffer.complete T, op', s'⟩ := by
  induction path generalizing past with
  | here => exact ⟨past, course⟩
  | onward _ taken _ ih => exact ih (course.goes taken)

/-- As many lookaheads are open as the calls under way allow, of which no two are alike. -/
theorem ahead_le (linked : g.Linked) (course : Course (Program.ofGrammar g library) past now)
    (fits : now.buffer.length ≤ Buffer.maxOffset) :
    now.state.ahead g now.op ≤
      Program.deepest g * (g.grammar.rulesets.length * (now.buffer.length + 1) + 1) := by
  obtain ⟨P, shows, follows⟩ := course.follows linked
  rw [shows.length_eq] at fits ⊢
  have path := (follows fits).path "" (fun _ => rfl) (by rwa [String.append_empty])
  rw [String.append_empty] at path
  have calls := (path.visited (Program.ofGrammar_closed g library) (Program.size_entries g library)
    (g.first_visited library P)).length_frames_le
  have around := Program.depthsAround_le g now.state.exits
  have length : now.state.exits.length = now.state.frames.length := List.length_map _
  have here := Program.depthAt_le_deepest g now.op
  have more := Nat.mul_le_mul_left (Program.deepest g) calls
  rw [length] at around
  rw [State.ahead, Nat.mul_succ]
  omega

end Course

/-! ## Lookaheads that are counted -/

namespace Machine

/-- Whatever is executed over the buffer, fewer lookaheads are open at once than 32 bits count. -/
def Shallow (g : AnnotatedGrammar) (p : Program) (b : Buffer) : Prop :=
  ∀ past now, Course p past now → now.buffer = b → now.state.ahead g now.op < UInt32.size

namespace Shallow

variable {g : AnnotatedGrammar} {library : Library} {p : Program} {b b' : Buffer}

/-- What is executed over a buffer may be executed when more text has come. -/
theorem of_append {text : String} (shallow : Shallow g p b') (appended : b.append text = .ok b') :
    Shallow g p b := by
  rintro past now course rfl
  exact shallow past ⟨b', now.op, now.state⟩ (course.text appended) rfl

theorem of_close (shallow : Shallow g p b.close) : Shallow g p b := by
  rintro past now course rfl
  exact shallow past ⟨now.buffer.close, now.op, now.state⟩ course.ends rfl

/-- A buffer that is not too long for the grammar. -/
theorem of_length (linked : g.Linked) (fits : b.length ≤ Buffer.maxOffset)
    (few : Program.deepest g * (g.grammar.rulesets.length * (b.length + 1) + 1) < UInt32.size) :
    Shallow g (Program.ofGrammar g library) b := by
  rintro past now course rfl
  exact Nat.lt_of_le_of_lt (course.ahead_le linked fits) few

/-- No lookahead ends that is not counted. -/
theorem counted {past : List Moment} {now : Moment} (shallow : Shallow g (Program.ofGrammar g library) b)
    (course : Course (Program.ofGrammar g library) past now) (here : now.buffer = b) :
    ¬ Uncounted (Program.ofGrammar g library) now.op now.state := by
  rintro ⟨none, next, exit⟩
  have few := shallow past now course here
  have deeper : Program.depthAt g next + 1 = Program.depthAt g now.op :=
    (Program.depths_lead g library).2.2 _ _ exit
  have zero := (course.level.eq_zero_iff few).1 none
  rw [State.ahead] at zero
  omega

/-- The run over a whole text comes nowhere where lookaheads cannot be counted. -/
theorem not_overflows {T : String} {op : Nat} {s : State}
    (shallow : Shallow g (Program.ofGrammar g library) (Buffer.complete T))
    (path : Reaches (Program.ofGrammar g library) T (Program.ofGrammar g library).root (g.first library) op s) :
    ¬ Overflows (Program.ofGrammar g library) T op s := by
  rintro ⟨op', s', onward, -, uncounted⟩
  obtain ⟨past, course⟩ := (Course.whole (p := Program.ofGrammar g library) T).reaches (path.trans onward)
  exact shallow.counted course rfl uncounted

end Shallow

end Machine

end PegFlow
