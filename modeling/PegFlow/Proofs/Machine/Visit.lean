/-
# PegFlow.Proofs.Machine.Visit -- the states that a run comes by

In every state that a run over a whole text comes by, the position, the notes to come back
to and the calls under way are at boundaries of the text, answers do not end before their
calls begin, and calls under way are distinct (`Reaches.visited`). So every part of the
program may begin in such a state (`Visited.ready`), and the places where calls go on are
places of the program.
-/
import PegFlow.Proofs.Machine.Control
import PegFlow.Proofs.Machine.Follow
import PegFlow.Proofs.Program.Closed

namespace PegFlow

set_option autoImplicit false

open Text

theorem Terminal.isBoundary_of_matchAt {t : Terminal} {T : String} {i k : Nat}
    (boundary : IsBoundary T i) (found : t.matchAt (Buffer.complete T) i = .ok (some k)) :
    IsBoundary T (i + k) := by
  have agrees := t.matchAt_agrees (Buffer.shows_complete T)
    (by rw [Buffer.complete_start]; exact Nat.zero_le i) boundary (fun _ => rfl)
  rw [String.append_empty, found] at agrees
  rcases agrees with same | ⟨h, -⟩ | ⟨h, -⟩
  · exact t.isBoundary_of_sizeAt boundary (Except.ok.inj same).symm
  · cases h
  · cases h

/-- The call of a frame began at a boundary, and its answer ends at one that is not before. -/
structure Frame.Aligned (T : String) (n : Nat) (f : Frame) : Prop where
  inRange : f.ruleset < n
  start : IsBoundary T f.start
  answer : ∀ seed, f.best = some seed → f.start ≤ seed.stop ∧ IsBoundary T seed.stop

theorem Frame.aligned_noteRecursion {T : String} {n : Nat} {frames : List Frame}
    (aligned : ∀ f ∈ frames, f.Aligned T n) (ruleset pos : Nat) : ∀ f ∈ noteRecursion ruleset pos frames, f.Aligned T n := by
  induction frames with
  | nil => exact aligned
  | cons f rest ih =>
      have first := aligned f List.mem_cons_self
      have others := fun g member => aligned g (List.mem_cons_of_mem f member)
      rw [noteRecursion]
      split
      · intro g member
        rcases List.mem_cons.1 member with rfl | later
        · exact ⟨first.inRange, first.start, first.answer⟩
        · exact others g later
      · intro g member
        rcases List.mem_cons.1 member with rfl | later
        · exact first
        · exact ih others g later

/-- All that a state may go back to is at boundaries of the text. -/
structure State.Aligned (T : String) (n : Nat) (s : State) : Prop where
  pos : IsBoundary T s.pos
  marks : ∀ m ∈ s.marks, IsBoundary T m.pos
  frames : ∀ f ∈ s.frames, f.Aligned T n

theorem State.Aligned.same {T : String} {n : Nat} {s t : State} (h : s.Aligned T n) (pos : t.pos = s.pos)
    (marks : t.marks = s.marks) (frames : t.frames = s.frames) : t.Aligned T n :=
  ⟨pos ▸ h.pos, marks ▸ h.marks, frames ▸ h.frames⟩

/-- What holds of the state in which the machine goes on. -/
def Progress.Onward (I : State → Prop) : Progress → Prop
  | .next _ t => I t
  | .halt _ => True
  | .fault _ _ => True

namespace Machine

variable {T : String} {n : Nat} {p : Program} {op op' : Nat} {s s' : State}

theorem leaveLoop_aligned (h : s.Aligned T n) (least pass fail : Nat) :
    (s.leaveLoop least pass fail).Onward (State.Aligned T n) := by
  rw [State.leaveLoop]
  split
  · trivial
  · exact h.same rfl rfl rfl

theorem goBack_aligned (h : s.Aligned T n) (next : Nat) :
    (s.goBack next).Onward (State.Aligned T n) := by
  rw [State.goBack]
  split
  · trivial
  · rename_i m rest marks
    have noted := h.marks
    rw [marks] at noted
    exact ⟨noted m List.mem_cons_self, fun k member => noted k (List.mem_cons_of_mem m member), h.frames⟩

theorem stopLooking_aligned (h : s.Aligned T n) (next : Nat) :
    (s.stopLooking next).Onward (State.Aligned T n) := by
  rw [State.stopLooking]
  split
  · trivial
  · rename_i m rest marks
    have noted := h.marks
    rw [marks] at noted
    dsimp only
    split
    · trivial
    · exact ⟨noted m List.mem_cons_self, fun k member => noted k (List.mem_cons_of_mem m member), h.frames⟩

theorem nextRound_aligned (h : s.Aligned T n) (body least pass fail : Nat) :
    (s.nextRound body least pass fail).Onward (State.Aligned T n) := by
  rw [State.nextRound]
  split
  · trivial
  · rename_i l rest loops
    have kept : (s.keepCaptures l.captures).Aligned T n := h.same rfl rfl rfl
    split
    · exact leaveLoop_aligned kept least pass fail
    · exact h.same rfl rfl rfl

theorem endCapture_aligned (h : s.Aligned T n) (b : Buffer) (slot : Nat) (ofRule : Bool) (next : Nat) :
    (State.endCapture b s slot ofRule next).Onward (State.Aligned T n) := by
  rw [State.endCapture]
  split
  · trivial
  · dsimp only
    split
    · exact h.same rfl rfl rfl
    · split
      · exact h.same rfl rfl rfl
      · trivial

theorem testTerminal_aligned (h : s.Aligned T n) (id pass fail : Nat) :
    (State.testTerminal p (Buffer.complete T) s op id pass fail).Onward (State.Aligned T n) := by
  have failed : (s.noteFailure id).Aligned T n :=
    h.same (s.noteFailure_failed id).pos (s.noteFailure_failed id).kept.marks
      (s.noteFailure_failed id).kept.frames
  rw [State.testTerminal]
  split
  · trivial
  · split
    · rename_i size found
      exact ⟨Terminal.isBoundary_of_matchAt h.pos found, h.marks, h.frames⟩
    · exact failed
    · exact failed
    · trivial
    · trivial

theorem call_aligned (h : s.Aligned T n) (entries : p.entries.size = n) (ruleset pass fail : Nat) :
    (State.call p s ruleset pass fail).Onward (State.Aligned T n) := by
  rw [State.call]
  split
  · rename_i f found
    have member := List.mem_of_find?_eq_some found
    have noted := Frame.aligned_noteRecursion h.frames ruleset s.pos
    dsimp only
    split
    · rename_i seed best
      exact ⟨((h.frames f member).answer seed best).2, h.marks, noted⟩
    · exact ⟨h.pos, h.marks, noted⟩
  · split
    · trivial
    · rename_i entry found
      refine ⟨h.pos, h.marks, fun f member => ?_⟩
      rcases List.mem_cons.1 member with rfl | later
      · exact ⟨entries ▸ (Array.getElem?_eq_some_iff.1 found).1, h.pos, fun seed best => by cases best⟩
      · exact h.frames f later

theorem giveOutput_aligned (h : s.Aligned T n) (b : Buffer) (rule next : Nat) :
    (State.giveOutput p b s rule next).Onward (State.Aligned T n) := by
  rw [State.giveOutput]
  split
  · trivial
  · split
    · trivial
    · split
      · trivial
      · dsimp only
        split
        · exact h.same rfl rfl rfl
        · trivial

/-- To leave a ruleset keeps what is aligned, when the call does not end before it began. -/
theorem leave_aligned (h : s.Aligned T n) (forward : ∀ f ∈ s.frames.head?, f.start ≤ s.pos) :
    (State.leave p s).Onward (State.Aligned T n) := by
  have open_ {f : Frame} {rest : List Frame} (frames : s.frames = f :: rest) :
      f.Aligned T n ∧ ∀ g ∈ rest, g.Aligned T n :=
    List.forall_mem_cons.1 (frames ▸ h.frames)
  have leaving := State.leave_leaving p s
  generalize State.leave p s = turn at leaving
  cases leaving with
  | outside | nowhere => trivial
  | result frames => exact ⟨h.pos, h.marks, (open_ frames).2⟩
  | earlier frames _ best => exact ⟨((open_ frames).1.answer _ best).2, h.marks, (open_ frames).2⟩
  | @again f rest _ frames =>
      obtain ⟨newest, others⟩ := open_ frames
      rw [frames] at forward
      refine ⟨newest.start, h.marks, fun g member => ?_⟩
      rcases List.mem_cons.1 member with rfl | later
      · refine ⟨newest.inRange, newest.start, fun seed best => ?_⟩
        cases best
        exact ⟨forward f rfl, h.pos⟩
      · exact others g later

theorem leaveFailed_aligned (h : s.Aligned T n) : s.leaveFailed.Onward (State.Aligned T n) := by
  rw [State.leaveFailed]
  split
  · trivial
  · rename_i f rest frames
    have open_ := h.frames
    rw [frames] at open_
    have newest := open_ f List.mem_cons_self
    have others : ∀ g ∈ rest, g.Aligned T n := fun g member => open_ g (List.mem_cons_of_mem f member)
    dsimp only
    split
    · rename_i seed best
      exact ⟨(newest.answer seed best).2, h.marks, others⟩
    · exact ⟨newest.start, h.marks, others⟩

theorem step_aligned (h : s.Aligned T n) (entries : p.entries.size = n)
    (forward : p.ops[op]? = some .ret → ∀ f ∈ s.frames.head?, f.start ≤ s.pos) :
    (step p (Buffer.complete T) op s).Onward (State.Aligned T n) := by
  cases held : p.ops[op]? with
  | none =>
      simp only [step, held]
      trivial
  | some o =>
      simp only [step, held]
      cases o with
      | enter next =>
          refine ⟨h.pos, fun m member => ?_, h.frames⟩
          rcases List.mem_cons.1 member with rfl | later
          · exact h.pos
          · exact h.marks m later
      | commit next =>
          dsimp only
          split
          · trivial
          · rename_i m rest marks
            refine ⟨h.pos, fun k member => h.marks k ?_, h.frames⟩
            rw [marks]
            exact List.mem_cons_of_mem m member
      | rollback next => exact goBack_aligned h next
      | lookEnter next =>
          refine ⟨h.pos, fun m member => ?_, h.frames⟩
          rcases List.mem_cons.1 member with rfl | later
          · exact h.pos
          · exact h.marks m later
      | lookExit next => exact stopLooking_aligned h next
      | pushNulls slots next =>
          have same := (s.recordNulls_captures slots).2
          exact h.same same.2 same.1.marks same.1.frames
      | loopEnter body => exact h.same rfl rfl rfl
      | loopNext body least pass fail => exact nextRound_aligned h body least pass fail
      | loopExit least pass fail => exact leaveLoop_aligned h least pass fail
      | captureStart next => exact h.same rfl rfl rfl
      | captureEnd slot ofRule next => exact endCapture_aligned h _ slot ofRule next
      | captureFail next =>
          dsimp only
          split
          · trivial
          · exact h.same rfl rfl rfl
      | terminal id pass fail => exact testTerminal_aligned h id pass fail
      | call ruleset pass fail => exact call_aligned h entries ruleset pass fail
      | output rule next => exact giveOutput_aligned h _ rule next
      | ret => exact leave_aligned h (forward held)
      | retFail => exact leaveFailed_aligned h
      | accept => trivial
      | reject => trivial

/-- The newest call did not begin behind the position. -/
def Forward (s : State) : Prop := ∀ f ∈ s.frames.head?, f.start ≤ s.pos

/-- Calls go on at places of the program, and not where a ruleset is left that matched. -/
def Exits (p : Program) (s : State) : Prop :=
  ∀ e ∈ s.exits, ∀ t, t = e.1 ∨ t = e.2 → t < p.ops.size ∧ t ≠ Program.retAt

/-- What is so in every state that a run comes by. -/
structure Visited (p : Program) (T : String) (n op : Nat) (s : State) : Prop where
  aligned : s.Aligned T n
  distinct : s.keys.Nodup
  exits : Exits p s
  forward : op = Program.retAt → Forward s
  pending : s.pending = none
  status : s.status = .running

/-- Where the machine goes on is no place where a ruleset is left that matched, unless an
output was worked out. -/
theorem Exits.next (closed : p.Closed) (exits : Exits p s)
    (taken : step p (Buffer.complete T) op s = .next op' s') :
    Exits p s' ∧ (op' = Program.retAt → ∃ rule, p.ops[op]? = some (.output rule Program.retAt)) := by
  have goes := step_goes p (Buffer.complete T) op s
  rw [taken] at goes
  cases goes with
  | onward held target same =>
      refine ⟨fun e member => exits e (same ▸ member), ?_⟩
      rintro rfl
      obtain ⟨rule, rfl⟩ := closed.leaves op _ held target
      exact ⟨rule, held⟩
  | @begins ruleset pass fail _ _ held found more =>
      refine ⟨fun e member => ?_, fun same => absurd same (closed.entries _ _ found).2⟩
      rw [more] at member
      rcases List.mem_cons.1 member with rfl | older
      · intro t named
        have target : t ∈ (Op.call ruleset pass fail).targets := by
          rcases named with rfl | rfl <;> simp [Op.targets]
        refine ⟨closed.targets op _ held t target, ?_⟩
        rintro rfl
        obtain ⟨rule, none⟩ := closed.leaves op _ held target
        cases none
      · exact exits e older
  | again held found open_ same =>
      exact ⟨fun e member => exits e (same ▸ member), fun same => absurd same (closed.entries _ _ found).2⟩
  | @leaves pass fail _ rest _ held newest exit left =>
      have known : ∀ e, e = (pass, fail) ∨ e ∈ rest → e ∈ s.exits := by
        intro e member
        rw [newest]
        exact List.mem_cons.2 member
      refine ⟨fun e member => exits e (known e (Or.inr (left ▸ member))), fun same => ?_⟩
      exact absurd same (exits _ (known _ (Or.inl rfl)) _ exit).2

theorem Visited.next (closed : p.Closed) (entries : p.entries.size = n) (visited : Visited p T n op s)
    (range : InRange p T op s) (taken : step p (Buffer.complete T) op s = .next op' s') :
    Visited p T n op' s' := by
  have aligned : (step p (Buffer.complete T) op s).Onward (State.Aligned T n) :=
    step_aligned visited.aligned entries fun held => visited.forward (closed.ret op held)
  have within := step_within p (Buffer.complete T) op s
  have running := within.running op' s' taken
  obtain ⟨exits, output⟩ := visited.exits.next closed taken
  rw [taken] at aligned
  refine ⟨aligned, ?_, exits, fun leaves => ?_, running.1.trans visited.pending, running.2.trans visited.status⟩
  · have calls := within.calls
    rw [taken] at calls
    exact calls.nodup visited.distinct
  · -- an output leaves the position and the newest call as they are
    obtain ⟨rule, held⟩ := output leaves
    rw [InRange, held] at range
    obtain ⟨-, f, rest, frames, -, le, -⟩ := range
    simp only [step, held, State.giveOutput, frames] at taken
    split at taken
    · cases taken
    · split at taken
      · cases taken
      · split at taken
        · cases taken
          intro g newest
          simp only [State.keepCaptures, frames, List.head?_cons, Option.mem_some_iff] at newest
          exact newest ▸ le
        · cases taken

/-- Every state that a run comes by is visited. -/
theorem Reaches.visited (closed : p.Closed) (entries : p.entries.size = n)
    (path : Reaches p T op s op' s') (visited : Visited p T n op s) : Visited p T n op' s' := by
  induction path with
  | here => exact visited
  | onward range taken _ ih => exact ih (visited.next closed entries range taken)

/-- Every part of a program may begin in a visited state. -/
theorem Visited.ready (visited : Visited p T n op s) :
    Ready T n (n * (T.utf8ByteSize + 1)) s where
  boundary := visited.aligned.pos
  distinct := visited.distinct
  inRange f member := ⟨(visited.aligned.frames f member).inRange, (visited.aligned.frames f member).start⟩
  answers f member := (visited.aligned.frames f member).answer
  room := Nat.le_add_left _ _

theorem Visited.length_frames_le (visited : Visited p T n op s) :
    s.frames.length ≤ n * (T.utf8ByteSize + 1) := by
  rw [← List.length_map (f := Frame.key)]
  refine length_keys_le visited.distinct fun key member => ?_
  obtain ⟨f, under, rfl⟩ := List.mem_map.1 member
  have aligned := visited.aligned.frames f under
  exact ⟨aligned.inRange, aligned.start.le⟩

end Machine

open Machine

theorem AnnotatedGrammar.first_visited (g : AnnotatedGrammar) (library : Library) (T : String) :
    Visited (Program.ofGrammar g library) T g.grammar.rulesets.length (Program.ofGrammar g library).root
      (g.first library) where
  aligned := ⟨isBoundary_zero T, by simp [first, State.start], by simp [first, State.start]⟩
  distinct := List.nodup_nil
  exits := by simp [Exits, State.exits, first, State.start]
  forward _ := by simp [Forward, first, State.start]
  pending := rfl
  status := rfl

end PegFlow
