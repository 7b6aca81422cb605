/-
# PegFlow.Proofs.Machine.Rename -- a run of renamed code

When the ops of one program are those of another one under other numbers, and what the numbers
refer to is the same, a step of the one is a step of the other: the state differs only in the
numbers in it (`step_rename`). Distinct rulesets and terminals stay distinct, so the same call is
found among those under way, and the same terminal among those expected.
-/
import PegFlow.Machine.Step
import PegFlow.Proofs.Program.Rename

namespace PegFlow

set_option autoImplicit false

/-- The frame with other numbers for its ruleset and for where it goes on. -/
def Frame.rename (ν : Renaming) (f : Frame) : Frame :=
  { f with ruleset := ν.ruleset f.ruleset, pass := ν.op f.pass, fail := ν.op f.fail }

/-- The state with other numbers in it. -/
def State.rename (ν : Renaming) (s : State) : State :=
  { s with
    frames := s.frames.map (Frame.rename ν)
    pending := s.pending.map ν.op
    expected := s.expected.map ν.terminal }

/-- The turn of a step with other numbers in it. -/
def Progress.rename (ν : Renaming) : Progress → Progress
  | .next op s => .next (ν.op op) (s.rename ν)
  | .halt s => .halt (s.rename ν)
  | .fault f s => .fault f (s.rename ν)

/-- The ops of `q` are in `p` under other numbers, and the numbers refer to the same things. -/
structure Program.Renamed (ν : Renaming) (q p : Program) : Prop where
  ops : ∀ (op : Nat) (o : Op), q.ops[op]? = some o → p.ops[ν.op op]? = some (o.rename ν)
  entries : ∀ ruleset : Nat, p.entries[ν.ruleset ruleset]? = q.entries[ruleset]?.map ν.op
  rules : ∀ rule : Nat, p.rules[ν.rule rule]? = q.rules[rule]?
  terminals : ∀ id : Nat, p.terminals[ν.terminal id]? = q.terminals[id]?
  library : p.library = q.library
  rulesetsDistinct : ν.ruleset.Injective
  terminalsDistinct : ν.terminal.Injective

namespace State

variable (ν : Renaming) (s : State)

theorem rename_leaveLoop (least pass fail : Nat) :
    (s.rename ν).leaveLoop least (ν.op pass) (ν.op fail) = (s.leaveLoop least pass fail).rename ν := by
  cases loops : s.loops with
  | nil => simp [leaveLoop, rename, loops, Progress.rename, Progress.defect]
  | cons l rest =>
      simp only [leaveLoop, rename, loops, Progress.rename]
      split <;> rfl

theorem rename_goBack (next : Nat) : (s.rename ν).goBack (ν.op next) = (s.goBack next).rename ν := by
  cases marks : s.marks with
  | nil => simp [goBack, rename, marks, Progress.rename, Progress.defect]
  | cons m rest => simp [goBack, rename, marks, Progress.rename, keepCaptures]

theorem rename_stopLooking (next : Nat) :
    (s.rename ν).stopLooking (ν.op next) = (s.stopLooking next).rename ν := by
  cases marks : s.marks with
  | nil => simp [stopLooking, rename, marks, Progress.rename, Progress.defect]
  | cons m rest =>
      by_cases quiet : s.quiet = 0 <;>
        simp [stopLooking, rename, marks, quiet, Progress.rename, Progress.defect, keepCaptures]

theorem rename_nextRound (body least pass fail : Nat) :
    (s.rename ν).nextRound (ν.op body) least (ν.op pass) (ν.op fail) =
      (s.nextRound body least pass fail).rename ν := by
  cases loops : s.loops with
  | nil => simp [nextRound, rename, loops, Progress.rename, Progress.defect]
  | cons l rest =>
      by_cases zeroWidth : s.pos = l.start
      · have ended := (s.keepCaptures l.captures).rename_leaveLoop ν least pass fail
        simpa [nextRound, rename, loops, zeroWidth, keepCaptures] using ended
      · simp [nextRound, rename, loops, zeroWidth, Progress.rename]

theorem rename_endCapture (b : Buffer) (slot : Nat) (ofRule : Bool) (next : Nat) :
    endCapture b (s.rename ν) slot ofRule (ν.op next) = (endCapture b s slot ofRule next).rename ν := by
  cases starts : s.captureStarts with
  | nil => simp [endCapture, rename, starts, Progress.rename, Progress.defect]
  | cons start rest =>
      cases ofRule with
      | true => simp [endCapture, rename, starts, Progress.rename, record]
      | false =>
          cases text : b.substrExact start (s.pos - start) <;>
            simp [endCapture, rename, starts, text, Progress.rename, record]

theorem rename_recordNulls (slots : List Nat) :
    (s.rename ν).recordNulls slots = (s.recordNulls slots).rename ν := by
  induction slots generalizing s with
  | nil => rfl
  | cons slot rest ih => exact ih (s.record slot .null)

theorem rename_leaveFailed : (s.rename ν).leaveFailed = s.leaveFailed.rename ν := by
  cases frames : s.frames with
  | nil => simp [leaveFailed, rename, frames, Progress.rename, Progress.defect]
  | cons f rest =>
      simp only [leaveFailed, rename, frames, List.map_cons, Frame.rename]
      cases f.best <;> rfl

variable {ν}

theorem contains_rename (distinct : ν.terminal.Injective) (ids : List Nat) (id : Nat) :
    (ids.map ν.terminal).contains (ν.terminal id) = ids.contains id := by
  simp [distinct.eq_iff]

/-- A terminal that failed is noted under its other number. -/
theorem rename_noteFailure (distinct : ν.terminal.Injective) (id : Nat) :
    (s.rename ν).noteFailure (ν.terminal id) = (s.noteFailure id).rename ν := by
  have known : (s.rename ν).expected.contains (ν.terminal id) = s.expected.contains id :=
    contains_rename distinct s.expected id
  unfold noteFailure
  rw [known]
  by_cases quiet : s.quiet ≠ 0
  · rw [if_pos quiet, if_pos (show (s.rename ν).quiet ≠ 0 from quiet)]
  · rw [if_neg quiet, if_neg (show ¬ (s.rename ν).quiet ≠ 0 from quiet)]
    by_cases further : s.furthest < s.pos
    · rw [if_pos further, if_pos (show (s.rename ν).furthest < (s.rename ν).pos from further)]
      rfl
    · rw [if_neg further, if_neg (show ¬ (s.rename ν).furthest < (s.rename ν).pos from further)]
      split
      · rename_i same
        rw [if_pos (show s.furthest = s.pos ∧ (!s.expected.contains id) = true from same)]
        rfl
      · rename_i other
        rw [if_neg (show ¬ (s.furthest = s.pos ∧ (!s.expected.contains id) = true) from other)]

end State

namespace Frame

variable {ν : Renaming} (distinct : ν.ruleset.Injective)

include distinct

theorem isAt_rename (f : Frame) (ruleset pos : Nat) :
    (f.rename ν).isAt (ν.ruleset ruleset) pos = f.isAt ruleset pos := by
  show (ν.ruleset f.ruleset == ν.ruleset ruleset && f.start == pos) = _
  rw [distinct.beq_eq]
  rfl

theorem noteRecursion_rename (ruleset pos : Nat) (frames : List Frame) :
    noteRecursion (ν.ruleset ruleset) pos (frames.map (rename ν)) =
      (noteRecursion ruleset pos frames).map (rename ν) := by
  induction frames with
  | nil => rfl
  | cons f rest ih =>
      rw [List.map_cons, noteRecursion, noteRecursion, isAt_rename distinct]
      split
      · rfl
      · rw [ih, List.map_cons]

/-- The call of a ruleset at a position is found under the other number. -/
theorem find?_rename (s : State) (ruleset : Nat) :
    ((s.rename ν).frames.find? fun f => f.isAt (ν.ruleset ruleset) s.pos) =
      (s.frames.find? fun f => f.isAt ruleset s.pos).map (rename ν) := by
  rw [State.rename, List.find?_map]
  congr 2
  exact funext fun f => f.isAt_rename distinct ruleset s.pos

end Frame

namespace Machine

variable {ν : Renaming} {q p : Program} (renamed : q.Renamed ν p) (b : Buffer) (s : State)

include renamed

theorem testTerminal_rename (op id pass fail : Nat) :
    State.testTerminal p b (s.rename ν) (ν.op op) (ν.terminal id) (ν.op pass) (ν.op fail) =
      (State.testTerminal q b s op id pass fail).rename ν := by
  simp only [State.testTerminal, renamed.terminals]
  cases q.terminals[id]? with
  | none => rfl
  | some t =>
      have pos : (s.rename ν).pos = s.pos := rfl
      simp only [pos, State.rename_noteFailure _ renamed.terminalsDistinct]
      rcases t.matchAt b s.pos with e | size
      · cases e <;> rfl
      · cases size <;> rfl

theorem call_rename (ruleset pass fail : Nat) :
    State.call p (s.rename ν) (ν.ruleset ruleset) (ν.op pass) (ν.op fail) =
      (State.call q s ruleset pass fail).rename ν := by
  have under := Frame.find?_rename renamed.rulesetsDistinct s ruleset
  have noted := Frame.noteRecursion_rename renamed.rulesetsDistinct ruleset s.pos s.frames
  have pos : (s.rename ν).pos = s.pos := rfl
  simp only [State.call, renamed.entries, pos, under]
  cases s.frames.find? fun f => f.isAt ruleset s.pos with
  | some f =>
      have best : (f.rename ν).best = f.best := rfl
      simp only [Option.map_some, best]
      cases f.best <;> simp [State.rename, Progress.rename, noted]
  | none =>
      simp only [Option.map_none]
      cases q.entries[ruleset]? <;> rfl

theorem giveOutput_rename (rule next : Nat) :
    State.giveOutput p b (s.rename ν) (ν.rule rule) (ν.op next) =
      (State.giveOutput q b s rule next).rename ν := by
  cases frames : s.frames with
  | nil => simp [State.giveOutput, State.rename, frames, Progress.rename, Progress.defect]
  | cons f rest =>
      simp only [State.giveOutput, State.rename, frames, List.map_cons, renamed.rules]
      cases q.rules[rule]? with
      | none => simp [Progress.rename, Progress.defect, State.rename, frames]
      | some r =>
          by_cases past : s.captures.size < f.captureBase
          · simp [Frame.rename, past, Progress.rename, Progress.defect, State.rename, frames]
          · simp only [Frame.rename, if_neg past, State.scope, renamed.library, State.keepCaptures]
            split <;> simp [Progress.rename, State.rename, frames, Frame.rename]

theorem leave_rename : State.leave p (s.rename ν) = (State.leave q s).rename ν := by
  cases frames : s.frames with
  | nil => simp [State.leave, State.rename, frames, Progress.rename, Progress.defect]
  | cons f rest =>
      simp only [State.leave, State.rename, frames, List.map_cons, Frame.rename, renamed.entries]
      cases f.leftRecursive with
      | false => rfl
      | true =>
          simp only [if_true]
          cases q.entries[f.ruleset]? with
          | none =>
              cases f.best with
              | none => rfl
              | some seed =>
                  dsimp only
                  split <;> rfl
          | some entry =>
              cases f.best with
              | none => rfl
              | some seed =>
                  dsimp only
                  split <;> rfl

/-- A step under other numbers is the step, under those numbers. -/
theorem step_rename {op : Nat} {o : Op} (held : q.ops[op]? = some o) :
    step p b (ν.op op) (s.rename ν) = (step q b op s).rename ν := by
  have there := renamed.ops op o held
  cases o with
  | enter next => simp only [step, held, there, Op.rename, Op.renumber, Op.relocate]; rfl
  | commit next =>
      cases marks : s.marks <;>
        simp [step, held, there, Op.rename, Op.renumber, Op.relocate, State.rename, marks, Progress.rename,
          Progress.defect]
  | rollback next =>
      simp only [step, held, there, Op.rename, Op.renumber, Op.relocate]
      exact s.rename_goBack ν next
  | lookEnter next => simp only [step, held, there, Op.rename, Op.renumber, Op.relocate]; rfl
  | lookExit next =>
      simp only [step, held, there, Op.rename, Op.renumber, Op.relocate]
      exact s.rename_stopLooking ν next
  | pushNulls slots next =>
      simp only [step, held, there, Op.rename, Op.renumber, Op.relocate, s.rename_recordNulls ν slots]
      rfl
  | loopEnter body => simp only [step, held, there, Op.rename, Op.renumber, Op.relocate]; rfl
  | loopNext body least pass fail =>
      simp only [step, held, there, Op.rename, Op.renumber, Op.relocate]
      exact s.rename_nextRound ν body least pass fail
  | loopExit least pass fail =>
      simp only [step, held, there, Op.rename, Op.renumber, Op.relocate]
      exact s.rename_leaveLoop ν least pass fail
  | captureStart next => simp only [step, held, there, Op.rename, Op.renumber, Op.relocate]; rfl
  | captureEnd slot ofRule next =>
      simp only [step, held, there, Op.rename, Op.renumber, Op.relocate]
      exact s.rename_endCapture ν b slot ofRule next
  | captureFail next =>
      cases starts : s.captureStarts <;>
        simp [step, held, there, Op.rename, Op.renumber, Op.relocate, State.rename, starts, Progress.rename,
          Progress.defect]
  | terminal id pass fail =>
      simp only [step, held, there, Op.rename, Op.renumber, Op.relocate]
      exact testTerminal_rename renamed b s op id pass fail
  | call ruleset pass fail =>
      simp only [step, held, there, Op.rename, Op.renumber, Op.relocate]
      exact call_rename renamed s ruleset pass fail
  | output rule next =>
      simp only [step, held, there, Op.rename, Op.renumber, Op.relocate]
      exact giveOutput_rename renamed b s rule next
  | ret =>
      simp only [step, held, there, Op.rename, Op.renumber, Op.relocate]
      exact leave_rename renamed s
  | retFail =>
      simp only [step, held, there, Op.rename, Op.renumber, Op.relocate]
      exact s.rename_leaveFailed ν
  | accept => simp only [step, held, there, Op.rename, Op.renumber, Op.relocate]; rfl
  | reject => simp only [step, held, there, Op.rename, Op.renumber, Op.relocate]; rfl

end Machine

end PegFlow
