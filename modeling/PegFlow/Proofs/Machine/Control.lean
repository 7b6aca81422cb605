/-
# PegFlow.Proofs.Machine.Control -- where a step goes on

A step goes on at a place that its op names, begins or tries again a ruleset at its entry,
or leaves the newest call at one of the two places where that call goes on; it halts at a
terminal that needs more text, or at the end of the program (`step_goes`). All this holds
of every program.
-/
import PegFlow.Proofs.Machine.Shape
import PegFlow.Proofs.Program.Relocate

namespace PegFlow

set_option autoImplicit false

/-- Where a call goes on: when its ruleset matched, and when it did not. -/
def Frame.exits (f : Frame) : Nat × Nat := (f.pass, f.fail)

/-- Where the calls under way go on, newest first. -/
def State.exits (s : State) : List (Nat × Nat) := s.frames.map Frame.exits

theorem Frame.exits_noteRecursion (ruleset pos : Nat) (frames : List Frame) :
    (noteRecursion ruleset pos frames).map exits = frames.map exits := by
  induction frames with
  | nil => rfl
  | cons f rest ih =>
      rw [noteRecursion]
      split
      · rfl
      · rw [List.map_cons, List.map_cons, ih]

/-- Where the turn of a step leads. -/
inductive Progress.Goes (p : Program) (b : Buffer) (op : Nat) (s : State) : Progress → Prop
  /-- The op names the place. -/
  | onward {o : Op} {op' : Nat} {t : State} (held : p.ops[op]? = some o) (target : op' ∈ o.targets)
      (same : t.exits = s.exits) : Goes p b op s (.next op' t)
  /-- A ruleset is called. -/
  | begins {ruleset pass fail entry : Nat} {t : State} (held : p.ops[op]? = some (.call ruleset pass fail))
      (found : p.entries[ruleset]? = some entry) (more : t.exits = (pass, fail) :: s.exits) :
      Goes p b op s (.next entry t)
  /-- A left recursive ruleset is tried again. -/
  | again {ruleset entry : Nat} {t : State} (held : p.ops[op]? = some .ret)
      (found : p.entries[ruleset]? = some entry) (open_ : s.exits ≠ []) (same : t.exits = s.exits) :
      Goes p b op s (.next entry t)
  /-- The newest call is left. -/
  | leaves {pass fail op' : Nat} {rest : List (Nat × Nat)} {t : State}
      (held : p.ops[op]? = some .ret ∨ p.ops[op]? = some .retFail)
      (newest : s.exits = (pass, fail) :: rest) (exit : op' = pass ∨ op' = fail) (left : t.exits = rest) :
      Goes p b op s (.next op' t)
  /-- A terminal needs more text. -/
  | waits {id pass fail : Nat} {t : Terminal} (held : p.ops[op]? = some (.terminal id pass fail))
      (found : p.terminals[id]? = some t) (needs : t.matchAt b s.pos = .error .needInput) :
      Goes p b op s (.halt (s.waitingAt op))
  | accepts (held : p.ops[op]? = some .accept) : Goes p b op s (.halt s.accepted)
  | rejects (held : p.ops[op]? = some .reject) : Goes p b op s (.halt s.rejected)
  | faults (f : Fault) (t : State) : Goes p b op s (.fault f t)

namespace Machine

open Progress

variable {p : Program} {b : Buffer} {op : Nat} {s : State} {o : Op}

theorem leaveLoop_goes (held : p.ops[op]? = some o) {least pass fail : Nat} (passes : pass ∈ o.targets)
    (fails : fail ∈ o.targets) : Goes p b op s (s.leaveLoop least pass fail) := by
  rw [State.leaveLoop]
  split
  · exact .faults _ _
  · refine .onward held ?_ rfl
    split
    · exact passes
    · exact fails

theorem goBack_goes (held : p.ops[op]? = some o) {next : Nat} (target : next ∈ o.targets) :
    Goes p b op s (s.goBack next) := by
  rw [State.goBack]
  split
  · exact .faults _ _
  · exact .onward held target rfl

theorem stopLooking_goes (held : p.ops[op]? = some o) {next : Nat} (target : next ∈ o.targets) :
    Goes p b op s (s.stopLooking next) := by
  rw [State.stopLooking]
  split
  · exact .faults _ _
  · dsimp only
    split
    · exact .faults _ _
    · exact .onward held target rfl

theorem nextRound_goes {body least pass fail : Nat} (held : p.ops[op]? = some (.loopNext body least pass fail)) :
    Goes p b op s (s.nextRound body least pass fail) := by
  rw [State.nextRound]
  split
  · exact .faults _ _
  · split
    · rename_i l rest loops _
      rw [State.leaveLoop]
      split
      · exact .faults _ _
      · refine .onward held ?_ rfl
        split <;> simp [Op.targets]
    · exact .onward held (by simp [Op.targets]) rfl

theorem endCapture_goes (held : p.ops[op]? = some o) {slot next : Nat} {ofRule : Bool}
    (target : next ∈ o.targets) : Goes p b op s (State.endCapture b s slot ofRule next) := by
  rw [State.endCapture]
  split
  · exact .faults _ _
  · dsimp only
    split
    · exact .onward held target rfl
    · split
      · exact .onward held target rfl
      · exact .faults _ _

theorem testTerminal_goes {id pass fail : Nat} (held : p.ops[op]? = some (.terminal id pass fail)) :
    Goes p b op s (State.testTerminal p b s op id pass fail) := by
  have failed : Goes p b op s (.next fail (s.noteFailure id)) :=
    .onward held (by simp [Op.targets])
      (congrArg (List.map Frame.exits) (s.noteFailure_failed id).kept.frames)
  rw [State.testTerminal]
  split
  · exact .faults _ _
  · rename_i t found
    split
    · exact .onward held (by simp [Op.targets]) rfl
    · exact failed
    · exact failed
    · rename_i needs
      exact .waits held found needs
    · exact .faults _ _

theorem call_goes {ruleset pass fail : Nat} (held : p.ops[op]? = some (.call ruleset pass fail)) :
    Goes p b op s (State.call p s ruleset pass fail) := by
  rw [State.call]
  split
  · have same := Frame.exits_noteRecursion ruleset s.pos s.frames
    dsimp only
    split
    · exact .onward held (by simp [Op.targets]) same
    · exact .onward held (by simp [Op.targets]) same
  · split
    · exact .faults _ _
    · rename_i entry found
      exact .begins held found rfl

theorem giveOutput_goes {rule next : Nat} (held : p.ops[op]? = some (.output rule next)) :
    Goes p b op s (State.giveOutput p b s rule next) := by
  rw [State.giveOutput]
  split
  · exact .faults _ _
  · split
    · exact .faults _ _
    · split
      · exact .faults _ _
      · dsimp only
        split
        · exact .onward held (by simp [Op.targets]) rfl
        · exact .faults _ _

theorem leave_goes (held : p.ops[op]? = some .ret) : Goes p b op s (State.leave p s) := by
  have newest {f : Frame} {rest : List Frame} (frames : s.frames = f :: rest) :
      s.exits = (f.pass, f.fail) :: rest.map Frame.exits := by
    rw [State.exits, frames]
    rfl
  have leaving := State.leave_leaving p s
  generalize State.leave p s = turn at leaving
  cases leaving with
  | outside | nowhere => exact .faults _ _
  | result frames | earlier frames => exact .leaves (Or.inl held) (newest frames) (Or.inl rfl) rfl
  | again frames _ _ found =>
      refine .again held found (by simp [newest frames]) ?_
      rw [newest frames]
      rfl

theorem leaveFailed_goes (held : p.ops[op]? = some .retFail) : Goes p b op s s.leaveFailed := by
  rw [State.leaveFailed]
  split
  · exact .faults _ _
  · rename_i f rest frames
    have newest : s.exits = (f.pass, f.fail) :: rest.map Frame.exits := by
      rw [State.exits, frames]
      rfl
    dsimp only
    split
    · exact .leaves (Or.inr held) newest (Or.inl rfl) rfl
    · exact .leaves (Or.inr held) newest (Or.inr rfl) rfl

theorem step_goes (p : Program) (b : Buffer) (op : Nat) (s : State) : Goes p b op s (step p b op s) := by
  cases held : p.ops[op]? with
  | none =>
      simp only [step, held]
      exact .faults _ _
  | some o =>
      simp only [step, held]
      cases o with
      | enter next => exact .onward held (by simp [Op.targets]) rfl
      | commit next =>
          dsimp only
          split
          · exact .faults _ _
          · exact .onward held (by simp [Op.targets]) rfl
      | rollback next => exact goBack_goes held (by simp [Op.targets])
      | lookEnter next => exact .onward held (by simp [Op.targets]) rfl
      | lookExit next => exact stopLooking_goes held (by simp [Op.targets])
      | pushNulls slots next =>
          exact .onward held (by simp [Op.targets])
            (congrArg (List.map Frame.exits) (s.recordNulls_captures slots).2.1.frames)
      | loopEnter body => exact .onward held (by simp [Op.targets]) rfl
      | loopNext body least pass fail => exact nextRound_goes held
      | loopExit least pass fail =>
          exact leaveLoop_goes held (by simp [Op.targets]) (by simp [Op.targets])
      | captureStart next => exact .onward held (by simp [Op.targets]) rfl
      | captureEnd slot ofRule next => exact endCapture_goes held (by simp [Op.targets])
      | captureFail next =>
          dsimp only
          split
          · exact .faults _ _
          · exact .onward held (by simp [Op.targets]) rfl
      | terminal id pass fail => exact testTerminal_goes held
      | call ruleset pass fail => exact call_goes held
      | output rule next => exact giveOutput_goes held
      | ret => exact leave_goes held
      | retFail => exact leaveFailed_goes held
      | accept => exact .accepts held
      | reject => exact .rejects held

end Machine

end PegFlow
