/-
# PegFlow.Proofs.Machine.Shape -- what one step may change

A step keeps the calls under way, makes one more that was not under way, or leaves the
newest (`step_within`), so calls that are under way together stay distinct (`KeysShape.nodup`). A
step after which the machine goes on leaves alone what says how the machine stopped. How a
ruleset that matched is left is told once, by `State.Leaving`. All this holds of every program.
-/
import PegFlow.Proofs.Machine.Call

namespace PegFlow

set_option autoImplicit false

/-- The state after a step. -/
def Progress.state : Progress → State
  | .next _ s => s
  | .halt s => s
  | .fault _ s => s

/-- The calls under way, newest first, by ruleset and offset. -/
def State.keys (s : State) : List (Nat × Nat) := s.frames.map Frame.key

/-- The calls under way are as before, the newest is left, or a new one is made. -/
def KeysShape (old new : List (Nat × Nat)) : Prop :=
  new = old ∨ new = old.tail ∨ ∃ key, key ∉ old ∧ new = key :: old

theorem KeysShape.nodup {old new : List (Nat × Nat)} (h : KeysShape old new) (distinct : old.Nodup) :
    new.Nodup := by
  rcases h with rfl | rfl | ⟨key, fresh, rfl⟩
  · exact distinct
  · exact distinct.sublist (List.tail_sublist old)
  · exact List.nodup_cons.2 ⟨fresh, distinct⟩

theorem KeysShape.left {s t : State} {f : Frame} {rest : List Frame} (frames : s.frames = f :: rest)
    (left : t.frames = rest) : KeysShape s.keys t.keys :=
  Or.inr (Or.inl (by rw [State.keys, State.keys, left, frames, List.map_cons, List.tail_cons]))

theorem Frame.keys_noteRecursion (ruleset pos : Nat) (frames : List Frame) :
    (noteRecursion ruleset pos frames).map key = frames.map key := by
  induction frames with
  | nil => rfl
  | cons f rest ih =>
      rw [noteRecursion]
      split
      · rfl
      · rw [List.map_cons, List.map_cons, ih]

namespace State

/-- The state that stopped for more text at an op. -/
def waitingAt (s : State) (op : Nat) : State := { s with status := .waiting, pending := some op }

/-- The state in which the program accepted. -/
def accepted (s : State) : State :=
  { s with status := .passed, output := some (s.result.getD .null), result := none }

/-- The state in which the program rejected. -/
def rejected (s : State) : State := { s with status := .failed }

/-- The state in which the machine goes on after it stopped. -/
def resumed (s : State) : State := { s with pending := none, status := .running }

/-- The state in which a ruleset that matched is tried again. -/
def retrying (s : State) (f : Frame) (rest : List Frame) : State :=
  { s.keepCaptures f.captureBase with
    frames := { f with best := some ⟨s.result.getD .null, s.pos⟩ } :: rest, pos := f.start, result := none }

/-- How a ruleset that matched is left: with its result, with an earlier one that reached as far,
or to be tried again. -/
inductive Leaving (p : Program) (s : State) : Progress → Prop where
  | outside (frames : s.frames = []) : Leaving p s (.defect .noFrame s)
  | result {f : Frame} {rest : List Frame} (frames : s.frames = f :: rest) (plain : f.leftRecursive = false) :
      Leaving p s (.next f.pass { s with frames := rest })
  | earlier {f : Frame} {rest : List Frame} {seed : Seed} (frames : s.frames = f :: rest)
      (recursive : f.leftRecursive = true) (best : f.best = some seed) (le : s.pos ≤ seed.stop) :
      Leaving p s (.next f.pass { s with frames := rest, pos := seed.stop, result := some seed.value })
  | again {f : Frame} {rest : List Frame} {entry : Nat} (frames : s.frames = f :: rest)
      (recursive : f.leftRecursive = true) (further : ∀ seed, f.best = some seed → seed.stop < s.pos)
      (found : p.entries[f.ruleset]? = some entry) : Leaving p s (.next entry (s.retrying f rest))
  | nowhere {f : Frame} {rest : List Frame} (frames : s.frames = f :: rest)
      (recursive : f.leftRecursive = true) (further : ∀ seed, f.best = some seed → seed.stop < s.pos)
      (missing : p.entries[f.ruleset]? = none) :
      Leaving p s (.defect .rulesetOutOfRange (s.retrying f rest))

theorem leave_leaving (p : Program) (s : State) : Leaving p s (leave p s) := by
  rw [leave]
  split
  · rename_i frames
    exact .outside frames
  · rename_i f rest frames
    split
    · rename_i recursive
      dsimp only
      split
      · rename_i none
        have further : ∀ seed, f.best = some seed → seed.stop < s.pos := by simp [none]
        split
        · exact .again frames recursive further ‹_›
        · exact .nowhere frames recursive further ‹_›
      · rename_i seed best
        split
        · rename_i lt
          have further : ∀ seed, f.best = some seed → seed.stop < s.pos := by simp [best, lt]
          split
          · exact .again frames recursive further ‹_›
          · exact .nowhere frames recursive further ‹_›
        · rename_i le
          exact .earlier frames recursive best (Nat.le_of_not_lt le)
    · rename_i plain
      exact .result frames (Bool.eq_false_iff.2 plain)

end State

/-- What a step may do: the calls under way change as they may, only a terminal moves the
furthest failure, and the machine goes on as it was. -/
structure Progress.Within (p : Program) (op : Nat) (s : State) (turn : Progress) : Prop where
  calls : KeysShape s.keys turn.state.keys
  furthest : turn.state.furthest = s.furthest ∨
    (turn.state.furthest = s.pos ∧ ∃ id pass fail, p.ops[op]? = some (.terminal id pass fail))
  running : ∀ op' t, turn = .next op' t → t.pending = s.pending ∧ t.status = s.status
  faulted : ∀ f t, turn = .fault f t → t.pending = s.pending

namespace Progress.Within

variable {p : Program} {op : Nat} {s t : State}

theorem next {op' : Nat} (calls : KeysShape s.keys t.keys) (pending : t.pending = s.pending)
    (status : t.status = s.status) (furthest : t.furthest = s.furthest ∨
      (t.furthest = s.pos ∧ ∃ id pass fail, p.ops[op]? = some (.terminal id pass fail))) :
    Within p op s (.next op' t) := by
  refine ⟨calls, furthest, ?_, (fun _ _ h => nomatch h)⟩
  rintro _ _ ⟨⟩
  exact ⟨pending, status⟩

/-- The calls under way and what says how the machine stopped are as before. -/
theorem same {op' : Nat} (frames : t.frames = s.frames) (pending : t.pending = s.pending)
    (status : t.status = s.status) (furthest : t.furthest = s.furthest) :
    Within p op s (.next op' t) :=
  next (Or.inl (congrArg (List.map Frame.key) frames)) pending status (Or.inl furthest)

theorem fault {f : Fault} (calls : KeysShape s.keys t.keys) (pending : t.pending = s.pending)
    (furthest : t.furthest = s.furthest) : Within p op s (.fault f t) := by
  refine ⟨calls, Or.inl furthest, (fun _ _ h => nomatch h), ?_⟩
  rintro _ _ ⟨⟩
  exact pending

theorem halt (calls : KeysShape s.keys t.keys) (furthest : t.furthest = s.furthest) :
    Within p op s (.halt t) :=
  ⟨calls, Or.inl furthest, (fun _ _ h => nomatch h), (fun _ _ h => nomatch h)⟩

end Progress.Within

namespace Machine

open Progress

variable {p : Program} {b : Buffer} {op : Nat} {s : State}

theorem leaveLoop_within (least pass fail : Nat) : Within p op s (s.leaveLoop least pass fail) := by
  rw [State.leaveLoop]
  split
  · exact .fault (Or.inl rfl) rfl rfl
  · exact .same rfl rfl rfl rfl

theorem goBack_within (next : Nat) : Within p op s (s.goBack next) := by
  rw [State.goBack]
  split
  · exact .fault (Or.inl rfl) rfl rfl
  · exact .same rfl rfl rfl rfl

theorem stopLooking_within (next : Nat) : Within p op s (s.stopLooking next) := by
  rw [State.stopLooking]
  split
  · exact .fault (Or.inl rfl) rfl rfl
  · dsimp only
    split
    · exact .fault (Or.inl rfl) rfl rfl
    · exact .same rfl rfl rfl rfl

theorem nextRound_within (body least pass fail : Nat) : Within p op s (s.nextRound body least pass fail) := by
  rw [State.nextRound]
  split
  · exact .fault (Or.inl rfl) rfl rfl
  · split
    · rename_i l rest loops _
      rw [State.leaveLoop]
      split
      · exact .fault (Or.inl rfl) rfl rfl
      · exact .same rfl rfl rfl rfl
    · exact .same rfl rfl rfl rfl

theorem endCapture_within (slot : Nat) (ofRule : Bool) (next : Nat) :
    Within p op s (State.endCapture b s slot ofRule next) := by
  rw [State.endCapture]
  split
  · exact .fault (Or.inl rfl) rfl rfl
  · dsimp only
    split
    · exact .same rfl rfl rfl rfl
    · split
      · exact .same rfl rfl rfl rfl
      · exact .fault (Or.inl rfl) rfl rfl

theorem noteFailure_running (s : State) (id : Nat) :
    (s.noteFailure id).pending = s.pending ∧ (s.noteFailure id).status = s.status := by
  unfold State.noteFailure
  split
  · exact ⟨rfl, rfl⟩
  · split
    · exact ⟨rfl, rfl⟩
    · split <;> exact ⟨rfl, rfl⟩

theorem noteFailure_furthest (s : State) (id : Nat) :
    (s.noteFailure id).furthest = s.furthest ∨ (s.noteFailure id).furthest = s.pos := by
  unfold State.noteFailure
  split
  · exact Or.inl rfl
  · split
    · exact Or.inr rfl
    · split <;> exact Or.inl rfl

theorem testTerminal_within {id pass fail : Nat} (found : p.ops[op]? = some (.terminal id pass fail)) :
    Within p op s (State.testTerminal p b s op id pass fail) := by
  have failed : Within p op s (.next fail (s.noteFailure id)) :=
    .next (Or.inl (congrArg (List.map Frame.key) (s.noteFailure_failed id).kept.frames))
      (noteFailure_running s id).1 (noteFailure_running s id).2
      ((noteFailure_furthest s id).imp_right fun moved => ⟨moved, id, pass, fail, found⟩)
  rw [State.testTerminal]
  split
  · exact .fault (Or.inl rfl) rfl rfl
  · split
    · exact .same rfl rfl rfl rfl
    · exact failed
    · exact failed
    · exact .halt (Or.inl rfl) rfl
    · exact .fault (Or.inl rfl) rfl rfl

theorem giveOutput_within (rule next : Nat) : Within p op s (State.giveOutput p b s rule next) := by
  rw [State.giveOutput]
  split
  · exact .fault (Or.inl rfl) rfl rfl
  · split
    · exact .fault (Or.inl rfl) rfl rfl
    · split
      · exact .fault (Or.inl rfl) rfl rfl
      · dsimp only
        split
        · exact .same rfl rfl rfl rfl
        · exact .fault (Or.inl rfl) rfl rfl

theorem call_within (ruleset pass fail : Nat) : Within p op s (State.call p s ruleset pass fail) := by
  rw [State.call]
  split
  · have same := Frame.keys_noteRecursion ruleset s.pos s.frames
    dsimp only
    split <;> exact .next (Or.inl same) rfl rfl (Or.inl rfl)
  · rename_i found
    have fresh := State.notUnderWay_of_find? found
    split
    · exact .fault (Or.inl rfl) rfl rfl
    · exact .next (Or.inr (Or.inr ⟨(ruleset, s.pos), fresh, rfl⟩)) rfl rfl (Or.inl rfl)

theorem leave_within : Within p op s (State.leave p s) := by
  have again : ∀ {f : Frame} {rest : List Frame}, s.frames = f :: rest →
      KeysShape s.keys (s.retrying f rest).keys := fun frames =>
    Or.inl (by rw [State.keys, State.keys, frames]; rfl)
  have leaving := State.leave_leaving p s
  generalize State.leave p s = turn at leaving
  cases leaving with
  | outside => exact .fault (Or.inl rfl) rfl rfl
  | result frames | earlier frames => exact .next (.left frames rfl) rfl rfl (Or.inl rfl)
  | again frames => exact .next (again frames) rfl rfl (Or.inl rfl)
  | nowhere frames => exact .fault (again frames) rfl rfl

theorem leaveFailed_within : Within p op s s.leaveFailed := by
  rw [State.leaveFailed]
  split
  · exact .fault (Or.inl rfl) rfl rfl
  · rename_i f rest frames
    dsimp only
    split <;> exact .next (.left frames rfl) rfl rfl (Or.inl rfl)

theorem recordNulls_running (s : State) (slots : List Nat) :
    (s.recordNulls slots).pending = s.pending ∧ (s.recordNulls slots).status = s.status ∧
      (s.recordNulls slots).furthest = s.furthest := by
  induction slots generalizing s with
  | nil => exact ⟨rfl, rfl, rfl⟩
  | cons slot rest ih => exact ih (s.record slot .null)

theorem step_within (p : Program) (b : Buffer) (op : Nat) (s : State) :
    Within p op s (step p b op s) := by
  cases found : p.ops[op]? with
  | none =>
      simp only [step, found]
      exact .fault (Or.inl rfl) rfl rfl
  | some o =>
      simp only [step, found]
      cases o with
      | enter next => exact .same rfl rfl rfl rfl
      | commit next =>
          dsimp only
          split
          · exact .fault (Or.inl rfl) rfl rfl
          · exact .same rfl rfl rfl rfl
      | rollback next => exact goBack_within next
      | lookEnter next => exact .same rfl rfl rfl rfl
      | lookExit next => exact stopLooking_within next
      | pushNulls slots next =>
          have running := recordNulls_running s slots
          exact .same (s.recordNulls_captures slots).2.1.frames running.1 running.2.1 running.2.2
      | loopEnter body => exact .same rfl rfl rfl rfl
      | loopNext body least pass fail => exact nextRound_within body least pass fail
      | loopExit least pass fail => exact leaveLoop_within least pass fail
      | captureStart next => exact .same rfl rfl rfl rfl
      | captureEnd slot ofRule next => exact endCapture_within slot ofRule next
      | captureFail next =>
          dsimp only
          split
          · exact .fault (Or.inl rfl) rfl rfl
          · exact .same rfl rfl rfl rfl
      | terminal id pass fail => exact testTerminal_within found
      | call ruleset pass fail => exact call_within ruleset pass fail
      | output rule next => exact giveOutput_within rule next
      | ret => exact leave_within
      | retFail => exact leaveFailed_within
      | accept => exact .halt (Or.inl rfl) rfl
      | reject => exact .halt (Or.inl rfl) rfl

end Machine

end PegFlow
