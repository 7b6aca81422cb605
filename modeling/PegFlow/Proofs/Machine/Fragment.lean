/-
# PegFlow.Proofs.Machine.Fragment -- each fragment does what its parse says

Each way to put fragments together is matched by the operation on parses of the same
name. A fragment `Does` what a parse says when it does so wherever it is placed; `lost`
says how it leaves the state when it fails. A sequence fails with something left to undo
(`Does.andThen`), and `Does.atomically` undoes it.
-/
import PegFlow.Proofs.Machine.Ends

namespace PegFlow

set_option autoImplicit false

open Text Machine

/-- The fragment does what the parse says over `T`, wherever it is placed. -/
def Does (p : Program) (T : String) (n depth : Nat) (lost : State → State → Prop)
    (fragment : Fragment) (parse : Parse (List Capture)) : Prop :=
  ∀ pass, Means p T (Ready T n depth) (Passed T) lost pass fragment parse

section

variable {p : Program} {T : String} {n depth : Nat} {f g : Fragment} {q r : Parse (List Capture)}

theorem Ready.same {s s' : State} (ready : Ready T n depth s) (frames : s'.frames = s.frames)
    (pos : s'.pos = s.pos) : Ready T n depth s' := by
  obtain ⟨boundary, distinct, inRange, answers, room⟩ := ready
  rw [← frames] at distinct inRange answers room
  exact ⟨pos ▸ boundary, distinct, inRange, answers, room⟩

theorem Passed.ready {s s' : State} {again : List (Nat × Nat)} {stop : Nat} {captures : List Capture}
    (h : Passed T (s.noted again) stop captures s') (ready : Ready T n depth s) :
    Ready T n depth s' :=
  ready.next h.kept (h.pos ▸ h.boundary)

theorem Failed.ready {s s' : State} {again : List (Nat × Nat)} (h : Failed (s.noted again) s')
    (ready : Ready T n depth s) : Ready T n depth s' :=
  ready.next h.kept (h.pos ▸ ready.boundary)

/-- What passed may be undone, as what was dropped is. -/
theorem Passed.dropped {s s' : State} {stop : Nat} {captures : List Capture}
    (h : Passed T s stop captures s') : Dropped s s' :=
  ⟨h.kept, h.captures ▸ List.prefix_append _ _⟩

theorem Failed.passed {s s' : State} (h : Failed s s') (boundary : IsBoundary T s.pos) :
    Passed T s s.pos [] s' :=
  ⟨h.kept, h.pos, Nat.le_refl _, boundary, by rw [h.captures, List.append_nil]⟩

/-- A failure before a match leaves no trace in it. -/
theorem Passed.of_failed {s s' s'' : State} {stop : Nat} {captures : List Capture}
    (first : Failed s s') (then_ : Passed T s' stop captures s'') : Passed T s stop captures s'' :=
  ⟨first.kept.trans then_.kept, then_.pos, first.pos ▸ then_.forward, then_.boundary,
    by rw [then_.captures, first.captures]⟩

theorem Does.loose (h : Does p T n depth Failed f q) : Does p T n depth Dropped f q :=
  fun pass base fail held s ready =>
    (h pass base fail held s ready).imp (fun _ _ _ _ done => done) fun _ _ lost => lost.dropped

/-! ## Matching nothing, and terminals -/

theorem Does.pass : Does p T n depth Failed Fragment.pass Parse.pass :=
  fun _ _ _ _ _ ready => .of_pass (.refl ready.boundary)

theorem Means.fail {α : Type} {ready : State → Prop} {won : State → Nat → α → State → Prop}
    {pass : Nat} : Means p T ready won Failed pass Fragment.fail Parse.fail :=
  fun _ _ _ s _ => .of_fail (.refl s)

theorem State.noteFailure_failed (s : State) (id : Nat) : Failed s (s.noteFailure id) := by
  unfold State.noteFailure
  split
  · exact .refl s
  · split
    · exact ⟨⟨rfl, rfl, rfl, rfl, rfl⟩, rfl, rfl⟩
    · split
      · exact ⟨⟨rfl, rfl, rfl, rfl, rfl⟩, rfl, rfl⟩
      · exact .refl s

theorem Does.terminal {id : Nat} {t : Terminal} (found : p.terminals[id]? = some t) :
    Does p T n depth Failed (Fragment.terminal id) (Parse.terminal T t) := by
  intro pass base fail held s ready
  have here : p.ops[base]? = some (.terminal id pass fail) := held.head
  have range : InRange p T base s := by
    simp only [InRange, here]
    exact ⟨(Array.getElem?_eq_some_iff.1 found).1, ready.boundary⟩
  have tested : step p (Buffer.complete T) base s =
      State.testTerminal p (Buffer.complete T) s base id pass fail := by
    simp only [step, here]
  show Ends p T _ _ pass fail base s s (Parse.terminal T t s.calls s.pos)
  simp only [State.testTerminal, found] at tested
  have agrees := t.matchAt_agrees (Buffer.shows_complete T)
    (by rw [Buffer.complete_start]; exact Nat.zero_le s.pos) ready.boundary (fun _ => rfl)
  rw [String.append_empty] at agrees
  rw [Parse.terminal]
  have failed : Reaches p T base s fail (s.noteFailure id) →
      Ends p T (Passed T) Failed pass fail base s s (.fail []) := fun path =>
    (Ends.of_fail (s.noteFailure_failed id)).after path
  rcases agrees with answer | ⟨answer, none⟩ | ⟨-, isOpen⟩
  · rw [answer] at tested
    cases size : t.sizeAt T s.pos with
    | none =>
        rw [size] at tested
        exact failed (.one range tested)
    | some k =>
        rw [size] at tested
        have done : Passed T s (s.pos + k) [] { s with pos := s.pos + k } :=
          ⟨⟨rfl, rfl, rfl, rfl, rfl⟩, rfl, Nat.le_add_right _ _,
            Terminal.isBoundary_of_sizeAt ready.boundary size, by simp⟩
        exact (Ends.of_pass done).after (.one range tested)
  · rw [answer] at tested
    rw [none]
    exact failed (.one range tested)
  · rw [Buffer.complete_closed] at isOpen
    cases isOpen

/-! ## Choice and sequence -/

theorem Means.orElse {α : Type} {ready : State → Prop} {won : State → Nat → α → State → Prop}
    {pass : Nat} {q r : Parse α} (one : Means p T ready won Failed pass f q)
    (other : Means p T ready won Failed pass g r)
    (stays : ∀ again s s', ready s → Failed (s.noted again) s' → ready s')
    (carried : ∀ s s' stop v s'', Failed s s' → won s' stop v s'' → won s stop v s'') :
    Means p T ready won Failed pass (f.orElse g) (q.orElse r) := by
  intro base fail held s hs
  refine (one _ _ held.right s hs).either (fun again stop v s' done => .of_pass done) ?_
  intro again s' lost
  have next := other base fail held.left s' (stays again s s' hs lost)
  rw [lost.kept.calls, lost.pos] at next
  exact next.imp (fun more stop v s'' done => carried _ _ stop v s'' (lost.noted more) done)
    fun more s'' lost' => (lost.noted more).trans lost'

theorem Does.orElse (one : Does p T n depth Failed f q) (other : Does p T n depth Failed g r) :
    Does p T n depth Failed (f.orElse g) (q.orElse r) := fun pass =>
  (one pass).orElse (other pass) (fun _ _ _ ready lost => lost.ready ready)
    fun _ _ _ _ _ lost done => .of_failed lost done

theorem Does.andThen (one : Does p T n depth Dropped f q) (other : Does p T n depth Dropped g r) :
    Does p T n depth Dropped (f.andThen g) (q.andThen r) := by
  intro pass base fail held s ready
  refine (one _ _ fail held.right s ready).either ?_ fun again s' lost => .of_fail lost
  intro again middle first s' done
  have next := other pass base fail held.left s' (done.ready ready)
  rw [done.kept.calls, done.pos] at next
  refine next.map (fun more stop second s'' done' => (done.noted more).trans done') ?_
  intro more s'' lost
  have start := (done.noted more).captures ▸ List.prefix_append _ _
  exact ⟨(done.kept.noted more).trans lost.kept, start.trans lost.captures⟩

/-- Nothing more after a part is the part itself. -/
theorem Parse.andThen_pass (q : Parse (List Capture)) : q.andThen Parse.pass = q := by
  funext calls pos
  cases h : q calls pos <;>
    simp [Parse.andThen, Parse.pass, Outcome.either, Outcome.map, Outcome.noting, h]

theorem Does.andThen_pass (h : Does p T n depth Failed f q) :
    Does p T n depth Failed (f.andThen Fragment.pass) (q.andThen Parse.pass) := by
  rw [Parse.andThen_pass]
  exact h

/-! ## Notes to come back to -/

/-- The parts of a body put between two ops to end with and one to begin with. -/
theorem Holds.around {base : Nat} {one other first : Op} {ops : List Op}
    (held : Holds p.ops base (one :: other :: ops ++ [first])) :
    p.ops[base]? = some one ∧ p.ops[base + 1]? = some other ∧ Holds p.ops (base + 2) ops ∧
      p.ops[base + 2 + ops.length]? = some first := by
  refine ⟨held.left.head, held.left.tail.head, held.left.tail.tail, ?_⟩
  have last := held.right.head
  rwa [List.length_cons, List.length_cons,
    show base + (ops.length + 1 + 1) = base + 2 + ops.length by omega] at last

/-- A state with the position, the captures and the notes of an earlier one. -/
def State.undone (s s' : State) : State :=
  { s'.keepCaptures s.captures.size with pos := s.pos, marks := s.marks }

/-- Going back to a note undoes all that happened since. -/
theorem Dropped.goBack {s s' : State} {again : List (Nat × Nat)} (h : Dropped (s.mark.noted again) s')
    (next : Nat) : ∃ t, s'.goBack next = .next next t ∧ Failed (s.noted again) t := by
  have marks : s'.marks = ⟨s.pos, s.captures.size⟩ :: s.marks := h.kept.marks
  refine ⟨s.undone s', by simp only [State.goBack, marks]; rfl, ?_, rfl, State.captures_keepCaptures h.captures⟩
  exact ⟨rfl, h.kept.captureStarts, h.kept.loops, h.kept.quiet, h.kept.frames⟩

/-- Begin to look ahead. -/
def State.look (s : State) : State := { s.mark with quiet := s.quiet + 1 }

theorem Does.atomically (body : Does p T n depth Dropped f q) :
    Does p T n depth Failed f.atomically q := by
  intro pass base fail held s ready
  obtain ⟨rollback, commit, code, enter⟩ := held.around
  have entered : Reaches p T (base + 2 + (f (base + 2) (base + 1) base).ops.length) s
      (f (base + 2) (base + 1) base).entry s.mark :=
    .one (by simp only [InRange, enter]) (by simp only [step, enter])
  refine Ends.after entered ((body _ _ _ code s.mark (ready.same rfl rfl)).onward ?_ ?_)
  · intro again stop captures s' done
    have marks : s'.marks = ⟨s.pos, s.captures.size⟩ :: s.marks := done.kept.marks
    refine ⟨{ s' with marks := s.marks },
      .one (by simp [InRange, commit, marks]) (by simp only [step, commit, marks]), ?_⟩
    have kept : Kept (s.noted again) { s' with marks := s.marks } :=
      ⟨rfl, done.kept.captureStarts, done.kept.loops, done.kept.quiet, done.kept.frames⟩
    exact ⟨kept, done.pos, done.forward, done.boundary, done.captures⟩
  · intro again s' lost
    obtain ⟨t, back, failed⟩ := lost.goBack fail
    have marks : s'.marks = ⟨s.pos, s.captures.size⟩ :: s.marks := lost.kept.marks
    exact ⟨t, .one (by simp [InRange, rollback, marks]) (by simp only [step, rollback, back]), failed⟩

/-- Looking ahead ends where it began, at either end of the body, unless it is not counted. -/
theorem Dropped.reaches {s s' : State} {again : List (Nat × Nat)} {op next : Nat}
    (h : Dropped (s.look.noted again) s') (boundary : IsBoundary T s.pos)
    (exit : p.ops[op]? = some (.lookExit next)) :
    Overflows p T op s' ∨ ∃ t, Reaches p T op s' next t ∧ Failed (s.noted again) t := by
  have marks : s'.marks = ⟨s.pos, s.captures.size⟩ :: s.marks := h.kept.marks
  have quiet : s'.quiet = s.quiet + 1 := h.kept.quiet
  have range : InRange p T op s' := by
    simp only [InRange, exit]
    exact ⟨_, _, marks, boundary⟩
  by_cases counted : s'.quiet = 0
  · exact Or.inl ⟨op, s', .here op s', range, counted, next, exit⟩
  · refine Or.inr ⟨{ s.undone s' with quiet := s.quiet }, .one range ?_, ?_, rfl,
      State.captures_keepCaptures h.captures⟩
    · have before : s'.quiet - 1 = s.quiet := by rw [quiet, UInt32.add_sub_cancel]
      simp only [step, exit, State.stopLooking, marks, State.keepCaptures, if_neg counted, before]
      rfl
    · exact ⟨rfl, h.kept.captureStarts, h.kept.loops, rfl, h.kept.frames⟩

theorem Does.lookahead (body : Does p T n depth Failed f q) :
    Does p T n depth Failed f.lookahead q.lookahead := by
  intro pass base fail held s ready
  obtain ⟨passed, failed, code, enter⟩ := held.around
  have entered : Reaches p T (base + 2 + (f (base + 2) base (base + 1)).ops.length) s
      (f (base + 2) base (base + 1)).entry s.look :=
    .one (by simp only [InRange, enter]) (by simp only [step, enter]; rfl)
  refine Ends.after entered ((body _ _ _ code s.look (ready.same rfl rfl)).either ?_ ?_)
  · intro again stop captures s' done
    rcases done.dropped.reaches ready.boundary passed with overflows | ⟨t, path, back⟩
    · exact Or.inl overflows
    · exact (Ends.of_pass (back.passed ready.boundary)).after path
  · intro again s' lost
    rcases lost.dropped.reaches ready.boundary failed with overflows | ⟨t, path, back⟩
    · exact Or.inl overflows
    · exact (Ends.of_fail back).after path

theorem Does.negativeLookahead (body : Does p T n depth Failed f q) :
    Does p T n depth Failed f.negativeLookahead q.notAhead := by
  intro pass base fail held s ready
  obtain ⟨failed, passed, code, enter⟩ := held.around
  have entered : Reaches p T (base + 2 + (f (base + 2) (base + 1) base).ops.length) s
      (f (base + 2) (base + 1) base).entry s.look :=
    .one (by simp only [InRange, enter]) (by simp only [step, enter]; rfl)
  refine Ends.after entered ((body _ _ _ code s.look (ready.same rfl rfl)).either ?_ ?_)
  · intro again stop captures s' done
    rcases done.dropped.reaches ready.boundary passed with overflows | ⟨t, path, back⟩
    · exact Or.inl overflows
    · exact (Ends.of_fail back).after path
  · intro again s' lost
    rcases lost.dropped.reaches ready.boundary failed with overflows | ⟨t, path, back⟩
    · exact Or.inl overflows
    · exact (Ends.of_pass (back.passed ready.boundary)).after path

/-! ## Repetition -/

/-- Begin a round after `count` rounds that matched. -/
def State.looping (count : Nat) (s : State) : State :=
  { s with loops := ⟨count, s.pos, s.captures.size⟩ :: s.loops }

/-- A loop is left from a state that is the one before its last round but for the loop
itself. -/
theorem Failed.leaveLoop {least pass fail op : Nat} {r u s' : State} {l : Loop} {rest : List Loop}
    (back : Failed r { u with loops := rest }) (loops : u.loops = l :: rest)
    (range : InRange p T op s') (boundary : IsBoundary T r.pos)
    (taken : step p (Buffer.complete T) op s' = u.leaveLoop least pass fail) :
    Ends p T (Passed T) (fun r t => l.count < least ∧ Failed r t) pass fail op s' r
      (Parse.ended least l.count r.pos) := by
  rw [State.leaveLoop, loops] at taken
  by_cases enough : least ≤ l.count
  · simp only [if_pos enough] at taken
    rw [Parse.ended, if_pos enough]
    exact (Ends.of_pass (back.passed boundary)).after (.one range taken)
  · simp only [if_neg enough] at taken
    rw [Parse.ended, if_neg enough]
    exact (Ends.of_fail ⟨by omega, back⟩).after (.one range taken)

/-- Rounds from one on, by induction on how many there can be: each one that goes on ends
further in the text. -/
theorem Ends.rounds {least pass fail base entry : Nat} (few : least ≤ 1)
    (exit : p.ops[base]? = some (.loopExit least pass fail))
    (next : p.ops[base + 1]? = some (.loopNext entry least pass fail))
    (body : ∀ s, Ready T n depth s →
      Ends p T (Passed T) Failed (base + 1) base entry s s (q s.calls s.pos))
    (fuel count : Nat) (s : State) (ready : Ready T n depth s)
    (enough : T.utf8ByteSize < fuel + s.pos) :
    Ends p T (Passed T) (fun r t => count < least ∧ Failed r t) pass fail entry (s.looping count) s
      (Parse.rounds least q fuel count s.calls s.pos) := by
  induction fuel generalizing count s with
  | zero =>
      have := ready.boundary.le
      omega
  | succ fuel ih =>
      refine (body (s.looping count) (ready.same rfl rfl)).either ?_ ?_
      · intro again stop captures s' done
        have loops : s'.loops = ⟨count, s.pos, s.captures.size⟩ :: s.loops := done.kept.loops
        have range : InRange p T (base + 1) s' := by simp [InRange, next, loops]
        have forward : s.pos ≤ stop := done.forward
        have kept : Kept (s.noted again) { s' with loops := s.loops } :=
          ⟨done.kept.marks, done.kept.captureStarts, rfl, done.kept.quiet, done.kept.frames⟩
        by_cases still : stop = s.pos
        · -- nothing was matched: the captures of the round are given up
          rw [if_pos still]
          have held : (s'.keepCaptures s.captures.size).captures.toList = s.captures.toList :=
            State.captures_keepCaptures ⟨captures, done.captures.symm⟩
          have back : Failed (s.noted again)
              { s'.keepCaptures s.captures.size with loops := s.loops } :=
            ⟨⟨kept.marks, kept.captureStarts, rfl, kept.quiet, kept.frames⟩, done.pos.trans still, held⟩
          refine back.leaveLoop (l := ⟨count, s.pos, s.captures.size⟩) loops range ready.boundary ?_
          simp only [step, next, State.nextRound, loops, done.pos, still, if_true]
        · rw [if_neg still]
          have moved : Passed T (s.noted again) stop captures { s' with loops := s.loops } :=
            ⟨kept, done.pos, forward, done.boundary, done.captures⟩
          have taken : step p (Buffer.complete T) (base + 1) s' =
              .next entry (State.looping (count + 1) { s' with loops := s.loops }) := by
            simp only [step, next, State.nextRound, loops, done.pos, if_neg still]
            simp [State.looping]
          refine Ends.after (.one range taken) ?_
          generalize { s' with loops := s.loops } = u at moved
          have later := ih (count + 1) u (moved.ready ready) (by rw [moved.pos]; omega)
          rw [moved.kept.calls, moved.pos] at later
          refine later.map (fun more stop' captures' s'' done' => ?_) ?_
          · exact (moved.noted more).trans done'
          · intro more s'' lost
            exact absurd lost.1 (by omega)
      · intro again s' lost
        have loops : s'.loops = ⟨count, s.pos, s.captures.size⟩ :: s.loops := lost.kept.loops
        have back : Failed (s.noted again) { s' with loops := s.loops } :=
          ⟨⟨lost.kept.marks, lost.kept.captureStarts, rfl, lost.kept.quiet, lost.kept.frames⟩,
            lost.pos, lost.captures⟩
        exact back.leaveLoop (l := ⟨count, s.pos, s.captures.size⟩) loops
          (by simp [InRange, exit, loops]) ready.boundary (by simp only [step, exit])

theorem Does.loop {least : Nat} (few : least ≤ 1) (body : Does p T n depth Failed f q) :
    Does p T n depth Failed (f.loop least) (q.loop T least) := by
  intro pass base fail held s ready
  obtain ⟨exit, next, code, enter⟩ := held.around
  have entered : Reaches p T (base + 2 + (f (base + 2) (base + 1) base).ops.length) s
      (f (base + 2) (base + 1) base).entry (s.looping 0) :=
    .one (by simp only [InRange, enter]) (by simp only [step, enter]; rfl)
  refine Ends.after entered ?_
  exact (Ends.rounds few exit next (fun s ready => body _ _ _ code s ready) (T.utf8ByteSize + 1) 0 s
    ready (by omega)).imp (fun _ _ _ _ done => done) fun _ _ lost => lost.2

/-! ## Captures -/

theorem State.recordNulls_captures (s : State) (slots : List Nat) :
    (s.recordNulls slots).captures.toList = s.captures.toList ++ Capture.nulls slots ∧
      Kept s (s.recordNulls slots) ∧ (s.recordNulls slots).pos = s.pos := by
  induction slots generalizing s with
  | nil => exact ⟨by simp [recordNulls, Capture.nulls], .refl s, rfl⟩
  | cons slot rest ih =>
      obtain ⟨captures, kept, pos⟩ := ih (s.record slot .null)
      refine ⟨?_, ⟨kept.marks, kept.captureStarts, kept.loops, kept.quiet, kept.frames⟩, pos⟩
      show ((s.record slot .null).recordNulls rest).captures.toList = _
      rw [captures]
      simp [record, Capture.nulls]

theorem Does.optional {slots : List Nat} (body : Does p T n depth Failed f q) :
    Does p T n depth Failed (f.optional slots) (q.optional slots) := by
  intro pass base fail held s ready
  have skipped : ∀ again s', Failed (s.noted again) s' →
      Passed T (s.noted again) s.pos (Capture.nulls slots) (s'.recordNulls slots) := by
    intro again s' lost
    obtain ⟨captures, kept, pos⟩ := s'.recordNulls_captures slots
    exact ⟨lost.kept.trans kept, pos.trans lost.pos, Nat.le_refl _, ready.boundary,
      by rw [captures, lost.captures]⟩
  cases slots with
  | nil =>
      refine (body pass base pass held s ready).either (fun _ _ _ _ done => .of_pass done) ?_
      intro again s' lost
      exact .of_pass (skipped again s' lost)
  | cons slot rest =>
      have nulls : p.ops[base]? = some (.pushNulls (slot :: rest) pass) := held.head
      refine (body pass (base + 1) base held.tail s ready).either (fun _ _ _ _ done => .of_pass done) ?_
      intro again s' lost
      exact (Ends.of_pass (skipped again s' lost)).after
        (.one (by simp only [InRange, nulls]) (by simp only [step, nulls]))

/-- Begin a capture. -/
def State.capturing (s : State) : State := { s with captureStarts := s.pos :: s.captureStarts }

/-- End a capture that recorded a value. -/
theorem Passed.recorded {s s' : State} {again : List (Nat × Nat)} {stop : Nat}
    {captures : List Capture} (h : Passed T (s.capturing.noted again) stop captures s')
    (result : Option Value) (slot : Nat) (v : Value) :
    Passed T (s.noted again) stop (captures ++ [⟨slot, v⟩])
      (({ s' with captureStarts := s.captureStarts, result } : State).record slot v) := by
  refine ⟨⟨h.kept.marks, rfl, h.kept.loops, h.kept.quiet, h.kept.frames⟩, h.pos, h.forward,
    h.boundary, ?_⟩
  have captures := h.captures
  simp only [State.noted, State.capturing] at captures
  simp [State.record, captures, State.noted]

/-- Give a capture up. -/
theorem Failed.released {s s' : State} {again : List (Nat × Nat)} {op next : Nat}
    (h : Failed (s.capturing.noted again) s') (exit : p.ops[op]? = some (.captureFail next)) :
    ∃ t, Reaches p T op s' next t ∧ Failed (s.noted again) t := by
  have starts : s'.captureStarts = s.pos :: s.captureStarts := h.kept.captureStarts
  refine ⟨{ s' with captureStarts := s.captureStarts },
    .one (by simp [InRange, exit, starts]) (by simp only [step, exit, starts]), ?_, h.pos, h.captures⟩
  exact ⟨h.kept.marks, rfl, h.kept.loops, h.kept.quiet, h.kept.frames⟩

theorem Does.captured (fits : T.utf8ByteSize ≤ Buffer.maxOffset) {slot : Nat}
    (body : Does p T n depth Failed f q) :
    Does p T n depth Failed (f.capture slot false) (q.captured T slot) := by
  intro pass base fail held s ready
  obtain ⟨passed, failed, code, enter⟩ := held.around
  have entered : Reaches p T (base + 2 + (f (base + 2) base (base + 1)).ops.length) s
      (f (base + 2) base (base + 1)).entry s.capturing :=
    .one (by simp only [InRange, enter]) (by simp only [step, enter]; rfl)
  refine Ends.after entered ((body _ _ _ code s.capturing (ready.same rfl rfl)).either ?_ ?_)
  · intro again stop captures s' done
    have starts : s'.captureStarts = s.pos :: s.captureStarts := done.kept.captureStarts
    have forward : s.pos ≤ stop := done.forward
    have read := (Buffer.shows_complete T).substrExact_eq fits ready.boundary done.boundary forward
      (by rw [Buffer.complete_start]; exact Nat.zero_le _)
    have range : InRange p T base s' := by
      simp only [InRange, passed]
      exact ⟨s.pos, _, starts, done.pos ▸ forward, ready.boundary, done.pos ▸ done.boundary⟩
    have taken : step p (Buffer.complete T) base s' = .next pass
        (({ s' with captureStarts := s.captureStarts } : State).record slot
          (.string (between T s.pos stop))) := by
      simp only [step, passed, State.endCapture, starts, done.pos, read]
      rfl
    exact (Ends.of_pass (done.recorded s'.result slot _)).after (.one range taken)
  · intro again s' lost
    obtain ⟨t, path, back⟩ := lost.released failed
    exact (Ends.of_fail back).after path

/-! ## Calls -/

theorem Does.recorded {q : Parse Value} {slot : Nat}
    (body : ∀ pass, Means p T (Ready T n depth) (Returned T) Failed pass f q) :
    Does p T n depth Failed (f.capture slot true) (q.recorded slot) := by
  intro pass base fail held s ready
  obtain ⟨passed, failed, code, enter⟩ := held.around
  have entered : Reaches p T (base + 2 + (f (base + 2) base (base + 1)).ops.length) s
      (f (base + 2) base (base + 1)).entry s.capturing :=
    .one (by simp only [InRange, enter]) (by simp only [step, enter]; rfl)
  refine Ends.after entered ((body _ _ _ code s.capturing (ready.same rfl rfl)).either ?_ ?_)
  · intro again stop v s' returned
    obtain ⟨done, result⟩ := returned
    have starts : s'.captureStarts = s.pos :: s.captureStarts := done.kept.captureStarts
    have forward : s.pos ≤ stop := done.forward
    have range : InRange p T base s' := by
      simp only [InRange, passed]
      exact ⟨s.pos, _, starts, done.pos ▸ forward, ready.boundary, done.pos ▸ done.boundary⟩
    have taken : step p (Buffer.complete T) base s' = .next pass
        (({ s' with captureStarts := s.captureStarts, result := none } : State).record slot v) := by
      simp only [step, passed, State.endCapture, starts, result]
      rfl
    exact (Ends.of_pass (done.recorded none slot v)).after (.one range taken)
  · intro again s' lost
    obtain ⟨t, path, back⟩ := lost.released failed
    exact (Ends.of_fail back).after path

theorem Does.silent {q : Parse Value}
    (body : ∀ pass, Means p T (Ready T n depth) (Returned T) Failed pass f q) :
    Does p T n depth Failed f q.silent := fun pass base fail held s ready =>
  (body pass base fail held s ready).map (fun _ _ _ _ done => done.1) fun _ _ lost => lost

end

end PegFlow
