/-
# PegFlow.Proofs.Machine.Guard -- calls before input is used up

A call under way that is found at the position of the state is reached again by calls that
come first in their rulesets. What makes it so is kept on the frames: each call was made where
the one below it began only if it can come first there (`Lined`). `Agrees` says of one op that
what it finds agrees with the marks of nullable rulesets and with the calls that come first, and
`Safe` that so many ops from here on do.

A fragment `Guards` that: from a state with frames so lined, it is safe to begin if it is safe
to go on at its exits, where more input is used up when the fragment cannot match nothing. There
is one lemma for each way to put fragments together.
-/
import PegFlow.Proofs.Grammar.LeftRecursion
import PegFlow.Proofs.Machine.Balanced

namespace PegFlow

set_option autoImplicit false

open Text Machine Relation

/-! ## Calls under way -/

/-- The answer of a call under way ends no earlier than it was called, and later when its ruleset
is not nullable. -/
def Frame.Answered (g : Grammar) (f : Frame) : Prop :=
  ∀ seed, f.best = some seed → f.start ≤ seed.stop ∧ (¬ g.MayBeEmpty f.ruleset → f.start < seed.stop)

/-- Each call under way was made no earlier than the one below it, and where that one was called
only if it can come first in its ruleset. So it is of the `calls` that can be made at `pos`. -/
def Lined (g : Grammar) (pos : Nat) (calls : List Nat) : List Frame → Prop
  | [] => True
  | f :: rest => f.start ≤ pos ∧ (f.start = pos → ∀ ruleset ∈ calls, g.CallsFirst f.ruleset ruleset) ∧
      f.Answered g ∧ Lined g f.start [f.ruleset] rest

section

variable {g : Grammar} {pos pos' : Nat} {calls calls' : List Nat} {frames frames' : List Frame}

theorem lined_plain : Lined g pos calls (frames.map Frame.plain) ↔ Lined g pos calls frames := by
  induction frames generalizing pos calls with
  | nil => exact Iff.rfl
  | cons f rest ih => exact and_congr_right' (and_congr_right' (and_congr_right' ih))

theorem Lined.same (lined : Lined g pos calls frames)
    (same : frames'.map Frame.plain = frames.map Frame.plain) : Lined g pos calls frames' := by
  rw [← lined_plain, same, lined_plain]
  exact lined

/-- Further on no call is made where those under way were. -/
theorem Lined.later (lined : Lined g pos calls frames) (forward : pos ≤ pos')
    (fewer : pos' = pos → calls' ⊆ calls) : Lined g pos' calls' frames := by
  cases frames with
  | nil => trivial
  | cons f rest =>
      obtain ⟨before, first, answered, below⟩ := lined
      refine ⟨before.trans forward, fun here ruleset member => ?_, answered, below⟩
      exact first (by omega) ruleset (fewer (by omega) member)

theorem Lined.fewer (lined : Lined g pos calls frames) (fewer : calls' ⊆ calls) :
    Lined g pos calls' frames := lined.later le_rfl fun _ => fewer

theorem Lined.answered (lined : Lined g pos calls frames) : ∀ f ∈ frames, f.Answered g ∧ f.start ≤ pos := by
  induction frames generalizing pos calls with
  | nil => exact List.forall_mem_nil _
  | cons f rest ih =>
      obtain ⟨before, -, answered, below⟩ := lined
      refine List.forall_mem_cons.2 ⟨⟨answered, before⟩, fun other member => ?_⟩
      obtain ⟨has, earlier⟩ := ih below other member
      exact ⟨has, earlier.trans before⟩

/-- A call under way at the position reaches, by calls that come first, any that can be made
there. The induction goes down the frames: all above the one in question begin where it does. -/
theorem Lined.transGen {ruleset : Nat} (lined : Lined g pos calls frames) {f : Frame} (member : f ∈ frames)
    (start : f.start = pos) (called : ruleset ∈ calls) : TransGen g.CallsFirst f.ruleset ruleset := by
  induction frames generalizing pos calls ruleset with
  | nil => cases member
  | cons above rest ih =>
      obtain ⟨before, first, -, below⟩ := lined
      rcases List.mem_cons.1 member with rfl | deeper
      · exact .single (first start ruleset called)
      · have earlier := (below.answered f deeper).2
        have same : above.start = pos := by omega
        exact (ih below deeper (start.trans same.symm) List.mem_cons_self).tail (first same ruleset called)

end

/-! ## What an op finds -/

/-- The op neither calls a ruleset nor leaves one. -/
def Op.Plain : Op → Prop
  | .call .. | .ret | .retFail => False
  | _ => True

namespace Machine

/-- The op leaves a ruleset that matched, the one called last, and the text from where it was
called to where it leaves matches. -/
structure Returns (p : Program) (b : Buffer) (op : Nat) (s : State) (f : Frame) (t : State) : Prop where
  leaves : p.ops[op]? = some .ret ∨ p.ops[op]? = some .retFail ∧ f.best.isSome = true
  taken : step p b op s = .next f.pass t
  frames : s.frames = f :: t.frames

/-- What an op finds agrees with what the grammar tells of rulesets: one that is called can come
first in those called at the same position, and one not marked nullable matches some text. -/
structure Agrees (g : Grammar) (p : Program) (b : Buffer) (op : Nat) (s : State) : Prop where
  calls : ∀ {ruleset pass fail : Nat}, p.ops[op]? = some (.call ruleset pass fail) →
    Lined g s.pos [ruleset] s.frames
  returns : ∀ {f : Frame} {t : State}, Returns p b op s f t → ¬ g.MayBeEmpty f.ruleset → f.start < t.pos

/-- So many ops that run from here on over the whole text agree. -/
def Safe (g : Grammar) (p : Program) (T : String) : Nat → Nat → State → Prop
  | 0, _, _ => True
  | n + 1, op, s => Agrees g p (Buffer.complete T) op s ∧
    ∀ op' s', step p (Buffer.complete T) op s = .next op' s' → Safe g p T n op' s'

variable {g : Grammar} {p : Program} {T : String} {n m op op' : Nat} {s s' : State} {o : Op}

/-- A ruleset found under way at the position reaches itself by calls that come first. -/
theorem Agrees.again {b : Buffer} (agrees : Agrees g p b op s) {ruleset pass fail : Nat} {f : Frame}
    (call : p.ops[op]? = some (.call ruleset pass fail))
    (under : s.frames.find? (fun f => f.isAt ruleset s.pos) = some f) :
    TransGen g.CallsFirst ruleset ruleset ∧
      ∀ seed, f.best = some seed → ¬ g.MayBeEmpty ruleset → s.pos < seed.stop := by
  have lined := agrees.calls call
  have member := List.mem_of_find?_eq_some under
  obtain ⟨rfl, start⟩ : f.ruleset = ruleset ∧ f.start = s.pos := by
    have key : f.key = (ruleset, s.pos) := Frame.isAt_iff.1 (by simpa using List.find?_some under)
    exact ⟨congrArg Prod.fst key, congrArg Prod.snd key⟩
  refine ⟨lined.transGen member start List.mem_cons_self, fun seed best no => ?_⟩
  exact start ▸ ((lined.answered f member).1 seed best).2 no

theorem Agrees.of_op {b : Buffer} (here : p.ops[op]? = some o) (plain : o.Plain) : Agrees g p b op s where
  calls found := by
    cases here.symm.trans found
    exact plain.elim
  returns left := by
    rcases left.leaves with found | ⟨found, -⟩
    · cases here.symm.trans found
      exact plain.elim
    · cases here.symm.trans found
      exact plain.elim

theorem Safe.mono (safe : Safe g p T n op s) (le : m ≤ n) : Safe g p T m op s := by
  induction m generalizing n op s with
  | zero => trivial
  | succ m ih =>
      cases n with
      | zero => omega
      | succ n => exact ⟨safe.1, fun op' s' taken => ih (safe.2 op' s' taken) (by omega)⟩

theorem Safe.turn (agrees : Agrees g p (Buffer.complete T) op s)
    (next : ∀ m < n, ∀ op' s', step p (Buffer.complete T) op s = .next op' s' → Safe g p T m op' s') :
    Safe g p T n op s := by
  cases n with
  | zero => trivial
  | succ n => exact ⟨agrees, next n (Nat.lt_succ_self n)⟩

theorem Safe.on (agrees : Agrees g p (Buffer.complete T) op s)
    (taken : step p (Buffer.complete T) op s = .next op' s') (next : ∀ m < n, Safe g p T m op' s') :
    Safe g p T n op s := by
  refine .turn agrees fun m lt op'' s'' taken' => ?_
  cases taken.symm.trans taken'
  exact next m lt

theorem Reaches.agrees (path : Reaches p T op s op' s') (safe : ∀ n, Safe g p T n op s) :
    Agrees g p (Buffer.complete T) op' s' := by
  induction path with
  | here => exact (safe 1).1
  | onward _ taken _ ih => exact ih fun n => (safe (n + 1)).2 _ _ taken

end Machine

/-! ## What stays open -/

namespace SameOpen

theorem refl (s : State) : SameOpen s s := ⟨rfl, rfl, rfl, rfl, rfl⟩

theorem of_kept {s s' : State} (kept : Kept s s') : SameOpen s s' :=
  ⟨kept.marks, kept.captureStarts, kept.loops, kept.quiet, by rw [kept.frames]⟩

theorem trans {s s' s'' : State} (one : SameOpen s s') (other : SameOpen s' s'') : SameOpen s s'' :=
  ⟨other.marks.trans one.marks, other.captureStarts.trans one.captureStarts,
    other.loops.trans one.loops, other.quiet.trans one.quiet, other.frames.trans one.frames⟩

end SameOpen

/-- What is open is as it was, and the position not before where it was, and further on if
`nothing` is not the case. -/
structure Moved (nothing : Bool) (s s' : State) : Prop extends SameOpen s s' where
  forward : s.pos ≤ s'.pos
  further : nothing = false → s.pos < s'.pos

/-- What is open is as it was, and so is the position. -/
structure Back (s s' : State) : Prop extends SameOpen s s' where
  pos : s'.pos = s.pos

theorem Back.refl (s : State) : Back s s := ⟨.refl s, rfl⟩

theorem Back.trans {s s' s'' : State} (one : Back s s') (other : Back s' s'') : Back s s'' :=
  ⟨one.toSameOpen.trans other.toSameOpen, other.pos.trans one.pos⟩

theorem Back.moved {s s' : State} (back : Back s s') : Moved true s s' :=
  ⟨back.toSameOpen, back.pos.ge, nofun⟩

theorem Moved.loose {nothing nothing' : Bool} {s s' : State} (moved : Moved nothing s s')
    (le : nothing = true → nothing' = true) : Moved nothing' s s' := by
  refine ⟨moved.toSameOpen, moved.forward, fun no => moved.further ?_⟩
  cases nothing with
  | false => rfl
  | true => cases no.symm.trans (le rfl)

theorem Moved.trans {one other : Bool} {s s' s'' : State} (first : Moved one s s')
    (then_ : Moved other s' s'') : Moved (one && other) s s'' := by
  have before := first.forward
  have after := then_.forward
  refine ⟨first.toSameOpen.trans then_.toSameOpen, before.trans after, fun no => ?_⟩
  rcases Bool.and_eq_false_iff.1 no with no | no
  · exact Nat.lt_of_lt_of_le (first.further no) after
  · exact Nat.lt_of_le_of_lt before (then_.further no)

theorem Moved.of_back {nothing : Bool} {s s' s'' : State} (back : Back s s')
    (moved : Moved nothing s' s'') : Moved nothing s s'' :=
  ⟨back.toSameOpen.trans moved.toSameOpen, back.pos ▸ moved.forward, back.pos ▸ moved.further⟩

/-! ## Fragments -/

/-- A terminal that matches uses up input, unless it is the empty text. -/
theorem Terminal.pos_of_matchAt {t : Terminal} (filled : t ≠ .literal "") {b : Buffer} {pos size : Nat}
    (matched : t.matchAt b pos = .ok (some size)) : 0 < size := by
  cases t with
  | literal text =>
      obtain ⟨begins, -, given⟩ := Except.bind_eq_ok matched
      cases begins with
      | true =>
          cases given
          exact Nat.pos_of_ne_zero (mt String.utf8ByteSize_eq_zero_iff.1 fun empty => filled (empty ▸ rfl))
      | false => cases given
  | charClass spec table =>
      obtain ⟨c, -, given⟩ := Except.bind_eq_ok matched
      split at given
      · cases given
        exact c.utf8Size_pos
      · cases given
  | any =>
      obtain ⟨c, -, given⟩ := Except.bind_eq_ok matched
      cases given
      exact c.utf8Size_pos

/-- Wherever the fragment is placed with this exit for success, it is safe to begin if it is safe
to go on at the exits: at `pass` after a move, at its other exit after `lost`. -/
def Guards (g : Grammar) (p : Program) (T : String) (N : Nat) (calls : List Nat) (nothing : Bool)
    (lost : State → State → Prop) (pass : Nat) (f : Fragment) : Prop :=
  ∀ n ≤ N, ∀ base fail, Holds p.ops base (f base pass fail).ops → ∀ s, Lined g s.pos calls s.frames →
    (∀ s', Moved nothing s s' → Safe g p T n pass s') → (∀ s', lost s s' → Safe g p T n fail s') →
      Safe g p T n (f base pass fail).entry s

namespace Guards

variable {g : Grammar} {p : Program} {T : String} {N pass : Nat} {calls calls' : List Nat}
  {nothing nothing' : Bool} {lost lost' : State → State → Prop} {f f' : Fragment}

theorem imp (guards : Guards g p T N calls nothing lost pass f) (fewer : calls ⊆ calls')
    (le : nothing = true → nothing' = true) (loose : ∀ s s', lost s s' → lost' s s') :
    Guards g p T N calls' nothing' lost' pass f :=
  fun n le' base fail held s lined passes fails => guards n le' base fail held s (lined.fewer fewer)
    (fun s' moved => passes s' (moved.loose le)) fun s' back => fails s' (loose s s' back)

theorem loose (guards : Guards g p T N calls nothing Back pass f) :
    Guards g p T N calls nothing (Moved true) pass f :=
  guards.imp (List.Subset.refl _) id fun _ _ back => back.moved

/-! ### Matching nothing, and terminals -/

theorem passing : Guards g p T N calls true lost pass Fragment.pass :=
  fun _ _ _ _ _ s _ passes _ => passes s (Back.refl s).moved

theorem failing : Guards g p T N calls nothing Back pass Fragment.fail :=
  fun _ _ _ _ _ s _ _ fails => fails s (.refl s)

theorem terminal {id : Nat} {t : Terminal} (found : p.terminals[id]? = some t)
    (filled : nothing = false → t ≠ .literal "") :
    Guards g p T N calls nothing Back pass (Fragment.terminal id) := by
  intro n le base fail held s lined passes fails
  have here : p.ops[base]? = some (.terminal id pass fail) := held.head
  have failed : Back s (s.noteFailure id) :=
    ⟨.of_kept (s.noteFailure_failed id).kept, (s.noteFailure_failed id).pos⟩
  show Safe g p T n base s
  refine .turn (.of_op here trivial) fun m lt op' s' taken => ?_
  simp only [step, here, State.testTerminal, found] at taken
  split at taken
  · rename_i size matched
    cases taken
    refine (passes { s with pos := s.pos + size } ⟨.of_kept ⟨rfl, rfl, rfl, rfl, rfl⟩, ?_, ?_⟩).mono lt.le
    · exact Nat.le_add_right _ _
    · exact fun no => Nat.lt_add_of_pos_right (Terminal.pos_of_matchAt (filled no) matched)
  · cases taken
    exact (fails _ failed).mono (by omega)
  · cases taken
    exact (fails _ failed).mono (by omega)
  · cases taken
  · cases taken

/-! ### Choice and sequence -/

theorem orElse (one : Guards g p T N calls nothing Back pass f)
    (other : Guards g p T N calls' nothing' Back pass f') :
    Guards g p T N (calls ++ calls') (nothing || nothing') Back pass (f.orElse f') := by
  intro n le base fail held s lined passes fails
  refine one n le _ _ held.right s (lined.fewer (List.subset_append_left _ _)) ?_ ?_
  · exact fun s' moved => passes s' (moved.loose fun yes => by rw [yes, Bool.true_or])
  intro s' back
  have lined' : Lined g s'.pos calls' s'.frames := by
    rw [back.pos]
    exact (lined.fewer (List.subset_append_right _ _)).same back.frames
  refine other n le _ _ held.left s' lined' ?_ ?_
  · exact fun s'' moved => passes s'' ((Moved.of_back back moved).loose fun yes => by rw [yes, Bool.or_true])
  · exact fun s'' back' => fails s'' (back.trans back')

/-- What follows is begun at the same position only if the first part may match nothing. -/
theorem andThen (one : ∀ pass, Guards g p T N calls nothing lost pass f)
    (other : Guards g p T N calls' nothing' lost' pass f')
    (undo : ∀ s s' s'', Moved nothing s s' → lost' s' s'' → lost s s'') :
    Guards g p T N (calls ++ if nothing then calls' else []) (nothing && nothing') lost pass (f.andThen f') := by
  intro n le base fail held s lined passes fails
  refine one _ n le _ _ held.right s (lined.fewer (List.subset_append_left _ _)) ?_ fails
  intro s' moved
  have forward := moved.forward
  have lined' : Lined g s'.pos calls' s'.frames := by
    refine (lined.later forward fun same => ?_).same moved.frames
    cases nothing with
    | true => exact List.subset_append_right _ _
    | false =>
        have := moved.further rfl
        omega
  refine other n le _ _ held.left s' lined' ?_ ?_
  · exact fun s'' moved' => passes s'' (moved.trans moved')
  · exact fun s'' back => fails s'' (undo s s' s'' moved back)

/-! ### Notes to come back to -/

theorem atomically (body : ∀ pass, Guards g p T N calls nothing (Moved true) pass f) :
    Guards g p T N calls nothing Back pass f.atomically := by
  intro n le base fail held s lined passes fails
  obtain ⟨rollback, commit, code, enter⟩ := held.around
  have entered : step p (Buffer.complete T) (base + 2 + (f (base + 2) (base + 1) base).ops.length) s =
      .next (f (base + 2) (base + 1) base).entry s.mark := by simp only [step, enter]
  refine .on (.of_op enter trivial) entered fun m lt => ?_
  refine body _ m (by omega) _ _ code s.mark lined ?_ ?_
  · intro s' moved
    have marks : s'.marks = ⟨s.pos, s.captures.size⟩ :: s.marks := moved.marks
    have left : step p (Buffer.complete T) (base + 1) s' = .next pass { s' with marks := s.marks } := by
      simp only [step, commit, marks]
    refine .on (.of_op commit trivial) left fun k lt' => (passes _ ?_).mono (by omega)
    exact ⟨⟨rfl, moved.captureStarts, moved.loops, moved.quiet, moved.frames⟩, moved.forward, moved.further⟩
  · intro s' moved
    have marks : s'.marks = ⟨s.pos, s.captures.size⟩ :: s.marks := moved.marks
    have left : step p (Buffer.complete T) base s' = .next fail (s.undone s') := by
      simp only [step, rollback, State.goBack, marks]
      rfl
    refine .on (.of_op rollback trivial) left fun k lt' => (fails _ ?_).mono (by omega)
    exact ⟨⟨rfl, moved.captureStarts, moved.loops, moved.quiet, moved.frames⟩, rfl⟩

/-- After looking ahead all is as it was. -/
theorem stopped {m n exit next : Nat} {s s' : State} (looked : p.ops[exit]? = some (.lookExit next))
    (moved : Moved true s.look s') (le : m ≤ n) (goes : ∀ t, Back s t → Safe g p T n next t) :
    Safe g p T m exit s' := by
  have marks : s'.marks = ⟨s.pos, s.captures.size⟩ :: s.marks := moved.marks
  have quiet : s'.quiet = s.quiet + 1 := moved.quiet
  by_cases counted : s'.quiet = 0
  · refine .turn (.of_op looked trivial) fun k lt op' t taken => ?_
    simp only [step, looked, State.stopLooking, marks, State.keepCaptures, if_pos counted] at taken
    cases taken
  · have left : step p (Buffer.complete T) exit s' = .next next { s.undone s' with quiet := s.quiet } := by
      have before : s'.quiet - 1 = s.quiet := by rw [quiet, UInt32.add_sub_cancel]
      simp only [step, looked, State.stopLooking, marks, State.keepCaptures, if_neg counted, before]
      rfl
    refine .on (.of_op looked trivial) left fun k lt => (goes _ ?_).mono (by omega)
    exact ⟨⟨rfl, moved.captureStarts, moved.loops, rfl, moved.frames⟩, rfl⟩

theorem lookahead (body : ∀ pass, Guards g p T N calls nothing Back pass f) :
    Guards g p T N calls true Back pass f.lookahead := by
  intro n le base fail held s lined passes fails
  obtain ⟨passed, failed, code, enter⟩ := held.around
  have entered : step p (Buffer.complete T) (base + 2 + (f (base + 2) base (base + 1)).ops.length) s =
      .next (f (base + 2) base (base + 1)).entry s.look := by
    simp only [step, enter]
    rfl
  refine .on (.of_op enter trivial) entered fun m lt => ?_
  refine body _ m (by omega) _ _ code s.look lined ?_ ?_
  · exact fun s' moved => stopped passed (moved.loose fun _ => rfl) lt.le fun t back => passes t back.moved
  · exact fun s' back => stopped failed back.moved lt.le fails

theorem negativeLookahead (body : ∀ pass, Guards g p T N calls nothing Back pass f) :
    Guards g p T N calls true Back pass f.negativeLookahead := by
  intro n le base fail held s lined passes fails
  obtain ⟨failed, passed, code, enter⟩ := held.around
  have entered : step p (Buffer.complete T) (base + 2 + (f (base + 2) (base + 1) base).ops.length) s =
      .next (f (base + 2) (base + 1) base).entry s.look := by
    simp only [step, enter]
    rfl
  refine .on (.of_op enter trivial) entered fun m lt => ?_
  refine body _ m (by omega) _ _ code s.look lined ?_ ?_
  · exact fun s' moved => stopped passed (moved.loose fun _ => rfl) lt.le fails
  · exact fun s' back => stopped failed back.moved lt.le fun t back' => passes t back'.moved

/-! ### Repetition -/

/-- A round that is to begin after `count` rounds that matched, in a loop that began in `s`. -/
structure Round (s : State) (count : Nat) (u : State) : Prop extends SameOpen s u where
  forward : s.pos ≤ u.pos
  none : count = 0 → u.pos = s.pos
  some_ : 0 < count → s.pos < u.pos

/-- After the last round the loop passes if there were enough. -/
theorem leaveLoop {m n least op count fail : Nat} {s u s' : State} {l : Loop} {rest : List Loop}
    (few : least ≤ 1) (round : Round s count { u with loops := rest }) (loops : u.loops = l :: rest)
    (counted : l.count = count) (agrees : Agrees g p (Buffer.complete T) op s')
    (taken : step p (Buffer.complete T) op s' = u.leaveLoop least pass fail) (le : m ≤ n)
    (passes : ∀ t, Moved (least == 0 || nothing) s t → Safe g p T n pass t)
    (fails : ∀ t, Back s t → Safe g p T n fail t) : Safe g p T m op s' := by
  rw [State.leaveLoop, loops] at taken
  simp only [counted] at taken
  refine .on agrees taken fun k lt => ?_
  by_cases enough : least ≤ count
  · rw [if_pos enough]
    refine (passes _ ⟨round.toSameOpen, round.forward, fun no => round.some_ ?_⟩).mono (by omega)
    have least_ : least ≠ 0 := fun zero => by simp [zero] at no
    omega
  · rw [if_neg enough]
    exact (fails _ ⟨round.toSameOpen, round.none (by omega)⟩).mono (by omega)

/-- Rounds from one on, by induction on how many ops may run. -/
theorem rounds {n least entry base fail : Nat} {s : State} (few : least ≤ 1)
    (exit : p.ops[base]? = some (.loopExit least pass fail))
    (next : p.ops[base + 1]? = some (.loopNext entry least pass fail))
    (lined : Lined g s.pos calls s.frames)
    (passes : ∀ t, Moved (least == 0 || nothing) s t → Safe g p T n pass t)
    (fails : ∀ t, Back s t → Safe g p T n fail t) (m : Nat) (le : m ≤ n)
    (body : ∀ k ≤ m, ∀ u, Lined g u.pos calls u.frames →
      (∀ s', Moved nothing u s' → Safe g p T k (base + 1) s') → (∀ s', Back u s' → Safe g p T k base s') →
        Safe g p T k entry u)
    (count : Nat) (u : State) (round : Round s count u) : Safe g p T m entry (u.looping count) := by
  induction m using Nat.strong_induction_on generalizing count u with
  | _ m ih =>
      have lined' : Lined g u.pos calls u.frames :=
        (lined.later round.forward fun _ => List.Subset.refl _).same round.frames
      refine body m le_rfl (u.looping count) lined' ?_ ?_
      · intro s' moved
        have loops : s'.loops = ⟨count, u.pos, u.captures.size⟩ :: u.loops := moved.loops
        have forward : u.pos ≤ s'.pos := moved.forward
        have before := round.forward
        have same : SameOpen s { s' with loops := u.loops } :=
          round.toSameOpen.trans ⟨moved.marks, moved.captureStarts, rfl, moved.quiet, moved.frames⟩
        by_cases still : s'.pos = u.pos
        · have ended : Round s count { s'.keepCaptures u.captures.size with loops := u.loops } := by
            refine ⟨⟨same.marks, same.captureStarts, same.loops, same.quiet, same.frames⟩, before.trans forward,
              ?_, ?_⟩
            · exact fun zero => still.trans (round.none zero)
            · exact fun some_ => (round.some_ some_).trans_le forward
          refine leaveLoop few ended loops rfl (.of_op next trivial) ?_ le passes fails
          simp only [step, next, State.nextRound, loops, still, if_true]
        · have taken : step p (Buffer.complete T) (base + 1) s' =
              .next entry (State.looping (count + 1) { s' with loops := u.loops }) := by
            simp only [step, next, State.nextRound, loops, if_neg still]
            rfl
          refine .on (.of_op next trivial) taken fun k lt => ?_
          refine ih k lt (by omega) (fun j le' => body j (by omega)) _ _
            ⟨same, before.trans forward, fun zero => absurd zero (Nat.succ_ne_zero count), fun _ => ?_⟩
          show s.pos < s'.pos
          omega
      · intro s' back
        have loops : s'.loops = ⟨count, u.pos, u.captures.size⟩ :: u.loops := back.loops
        have pos : s'.pos = u.pos := back.pos
        have ended : Round s count { s' with loops := u.loops } := by
          refine ⟨?_, pos.symm ▸ round.forward, fun zero => pos.trans (round.none zero), ?_⟩
          · exact round.toSameOpen.trans ⟨back.marks, back.captureStarts, rfl, back.quiet, back.frames⟩
          · exact fun some_ => pos.symm ▸ round.some_ some_
        exact leaveLoop few ended loops rfl (.of_op exit trivial) (by simp only [step, exit]) le passes fails

theorem loop {least : Nat} (few : least ≤ 1) (body : ∀ pass, Guards g p T N calls nothing Back pass f) :
    Guards g p T N calls (least == 0 || nothing) Back pass (f.loop least) := by
  intro n le base fail held s lined passes fails
  obtain ⟨exit, next, code, enter⟩ := held.around
  have entered : step p (Buffer.complete T) (base + 2 + (f (base + 2) (base + 1) base).ops.length) s =
      .next (f (base + 2) (base + 1) base).entry (s.looping 0) := by
    simp only [step, enter]
    rfl
  refine .on (.of_op enter trivial) entered fun m lt => ?_
  exact rounds few exit next lined passes fails m lt.le
    (fun k le' u lined' => body _ k (by omega) _ _ code u lined') 0 s
    ⟨.refl s, le_rfl, fun _ => rfl, fun some_ => absurd some_ (Nat.lt_irrefl 0)⟩

theorem optional {slots : List Nat} (body : ∀ pass, Guards g p T N calls nothing Back pass f) :
    Guards g p T N calls true Back pass (f.optional slots) := by
  intro n le base fail held s lined passes fails
  cases slots with
  | nil =>
      refine body pass n le base pass held s lined ?_ fun s' back => passes s' back.moved
      exact fun s' moved => passes s' (moved.loose fun _ => rfl)
  | cons slot rest =>
      have nulls : p.ops[base]? = some (.pushNulls (slot :: rest) pass) := held.head
      refine body pass n le (base + 1) base held.tail s lined ?_ ?_
      · exact fun s' moved => passes s' (moved.loose fun _ => rfl)
      · intro s' back
        obtain ⟨-, kept, pos⟩ := s'.recordNulls_captures (slot :: rest)
        have taken : step p (Buffer.complete T) base s' = .next pass (s'.recordNulls (slot :: rest)) := by
          simp only [step, nulls]
        refine .on (.of_op nulls trivial) taken fun m lt => (passes _ ?_).mono (by omega)
        exact (back.trans ⟨.of_kept kept, pos⟩).moved

/-! ### Captures and outputs -/

theorem capture {slot : Nat} {ofRule : Bool} (body : ∀ pass, Guards g p T N calls nothing Back pass f) :
    Guards g p T N calls nothing Back pass (f.capture slot ofRule) := by
  intro n le base fail held s lined passes fails
  obtain ⟨passed, failed, code, enter⟩ := held.around
  have entered : step p (Buffer.complete T) (base + 2 + (f (base + 2) base (base + 1)).ops.length) s =
      .next (f (base + 2) base (base + 1)).entry s.capturing := by
    simp only [step, enter]
    rfl
  refine .on (.of_op enter trivial) entered fun m lt => ?_
  refine body _ m (by omega) _ _ code s.capturing lined ?_ ?_
  · intro s' moved
    have starts : s'.captureStarts = s.pos :: s.captureStarts := moved.captureStarts
    refine .turn (.of_op passed trivial) fun k lt' op' t taken => ?_
    have ended : op' = pass ∧ Moved nothing s t := by
      simp only [step, passed, State.endCapture, starts] at taken
      split at taken
      · cases taken
        exact ⟨rfl, ⟨moved.marks, rfl, moved.loops, moved.quiet, moved.frames⟩, moved.forward, moved.further⟩
      · split at taken
        · cases taken
          exact ⟨rfl, ⟨moved.marks, rfl, moved.loops, moved.quiet, moved.frames⟩, moved.forward, moved.further⟩
        · cases taken
    obtain ⟨rfl, moved'⟩ := ended
    exact (passes t moved').mono (by omega)
  · intro s' back
    have starts : s'.captureStarts = s.pos :: s.captureStarts := back.captureStarts
    have left : step p (Buffer.complete T) (base + 1) s' =
        .next fail { s' with captureStarts := s.captureStarts } := by
      simp only [step, failed, starts]
    refine .on (.of_op failed trivial) left fun k lt' => (fails _ ?_).mono (by omega)
    exact ⟨⟨back.marks, rfl, back.loops, back.quiet, back.frames⟩, back.pos⟩

theorem rule {index : Nat} (body : ∀ pass, Guards g p T N calls nothing Back pass f) :
    Guards g p T N calls nothing Back pass (f.rule index pass) := by
  intro n le base fail held s lined passes fails
  have here : p.ops[base]? = some (.output index pass) := held.head
  refine body base n le (base + 1) fail held.tail s lined ?_ fails
  intro s' moved
  refine .turn (.of_op here trivial) fun m lt op' t taken => ?_
  have ended : op' = pass ∧ Moved nothing s t := by
    simp only [step, here, State.giveOutput] at taken
    split at taken
    · cases taken
    · split at taken
      · cases taken
      · split at taken
        · cases taken
        · split at taken
          · cases taken
            exact ⟨rfl, ⟨moved.marks, moved.captureStarts, moved.loops, moved.quiet, moved.frames⟩,
              moved.forward, moved.further⟩
          · cases taken
  obtain ⟨rfl, moved'⟩ := ended
  exact (passes t moved').mono (by omega)

end Guards

end PegFlow
