/-
# PegFlow.Proofs.Machine.Call -- calls and growing results

A call that is under way gets its answer, and is noted (`Means.reenter`). A new call
tries the rules one level deeper; there is always a level left, because calls under way
differ in their ruleset or their offset (`Ready.depth_pos`). When it was made again
meanwhile it is tried again with the last result as its answer, each round ending further
in the text (`Ends.grow`). Together they give `Means.call`.
-/
import PegFlow.Proofs.Machine.Fragment
import Mathlib.Data.List.ProdSigma
import Mathlib.Data.List.Nodup

namespace PegFlow

set_option autoImplicit false

open Text Machine

/-! ## Frames under way -/

namespace Frame

theorem isAt_iff {f : Frame} {ruleset pos : Nat} : f.isAt ruleset pos = true ↔ f.key = (ruleset, pos) := by
  simp [isAt, key]

theorem noted_of_ne {f : Frame} {key : Nat × Nat} (h : f.key ≠ key) : f.noted [key] = f := by
  simp [noted, h]

/-- As no two calls under way are alike, noting the first one of a kind notes all. -/
theorem noteRecursion_eq {ruleset pos : Nat} {frames : List Frame}
    (distinct : (frames.map key).Nodup) :
    noteRecursion ruleset pos frames = frames.map (noted [(ruleset, pos)]) := by
  induction frames with
  | nil => rfl
  | cons f rest ih =>
      rw [List.map_cons, List.nodup_cons] at distinct
      by_cases here : f.key = (ruleset, pos)
      · have others : rest.map (noted [(ruleset, pos)]) = rest.map id :=
          List.map_congr_left fun g hg => noted_of_ne fun same =>
            distinct.1 (here ▸ same ▸ List.mem_map_of_mem hg)
        rw [List.map_cons, others, List.map_id, noteRecursion, if_pos (isAt_iff.2 here)]
        simp [noted, here]
      · rw [List.map_cons, noteRecursion, if_neg (mt isAt_iff.1 here), ih distinct.2, noted_of_ne here]

end Frame

/-- The ruleset is not under way at the position of the state. -/
def State.NotUnderWay (s : State) (ruleset : Nat) : Prop :=
  (ruleset, s.pos) ∉ s.frames.map Frame.key

/-- A state with one more call under way. -/
def State.calling (s : State) (f : Frame) : State := { s with frames := f :: s.frames }

section

variable {p : Program} {T : String} {n depth : Nat} {s : State} {ruleset : Nat}

/-- Pairs of a ruleset and an offset that are all different. -/
theorem length_keys_le {keys : List (Nat × Nat)} {size : Nat} (distinct : keys.Nodup)
    (inside : ∀ key ∈ keys, key.1 < n ∧ key.2 ≤ size) : keys.length ≤ n * (size + 1) := by
  have subset : keys ⊆ List.range n ×ˢ List.range (size + 1) := by
    intro key member
    rw [List.mem_product, List.mem_range, List.mem_range]
    exact ⟨(inside key member).1, Nat.lt_succ_of_le (inside key member).2⟩
  have few := distinct.length_le_of_subset subset
  rwa [List.length_product, List.length_range, List.length_range] at few

/-- Calls under way are as many as there are pairs of a ruleset and an offset at most, so
there is room for one that is not under way. -/
theorem Ready.depth_pos (ready : Ready T n depth s) (lt : ruleset < n)
    (fresh : s.NotUnderWay ruleset) : 0 < depth := by
  have few : ((ruleset, s.pos) :: s.frames.map Frame.key).length ≤ n * (T.utf8ByteSize + 1) := by
    refine length_keys_le (List.nodup_cons.2 ⟨fresh, ready.distinct⟩) ?_
    refine List.forall_mem_cons.2 ⟨⟨lt, ready.boundary.le⟩, fun key member => ?_⟩
    obtain ⟨f, under, rfl⟩ := List.mem_map.1 member
    exact ⟨(ready.inRange f under).1, (ready.inRange f under).2.le⟩
  have room := ready.room
  rw [List.length_cons, List.length_map] at few
  omega

/-- A new call, with the answer that it is to give, leaves one level less. -/
theorem Ready.calling (ready : Ready T n (depth + 1) s) (lt : ruleset < n)
    (fresh : s.NotUnderWay ruleset) {f : Frame} (key : f.key = (ruleset, s.pos))
    (answer : ∀ seed, f.best = some seed → s.pos ≤ seed.stop ∧ IsBoundary T seed.stop) :
    Ready T n depth (s.calling f) := by
  have called : f.ruleset = ruleset := congrArg Prod.fst key
  have start : f.start = s.pos := congrArg Prod.snd key
  refine ⟨ready.boundary, ?_, ?_, ?_, ?_⟩
  · exact List.nodup_cons.2 ⟨key ▸ fresh, ready.distinct⟩
  · exact List.forall_mem_cons.2 ⟨⟨called ▸ lt, start ▸ ready.boundary⟩, ready.inRange⟩
  · exact List.forall_mem_cons.2 ⟨start ▸ answer, ready.answers⟩
  · have room := ready.room
    simp only [State.calling, List.length_cons]
    omega

/-- The call under way that a call is answered by is that of the frame the machine finds. -/
theorem State.find?_calls (s : State) (ruleset : Nat) :
    (s.calls.find? fun c => c.ruleset == ruleset && c.start == s.pos) =
      (s.frames.find? fun f => f.isAt ruleset s.pos).map Frame.openCall := by
  rw [State.calls, List.find?_map]
  rfl

theorem State.notUnderWay_of_find? (h : (s.frames.find? fun f => f.isAt ruleset s.pos) = none) :
    s.NotUnderWay ruleset := by
  intro member
  obtain ⟨f, hf, key⟩ := List.mem_map.1 member
  exact List.find?_eq_none.1 h f hf (Frame.isAt_iff.2 key)

/-! ## One attempt and what follows it -/

/-- A state has just begun to try the rules of the ruleset called last. -/
structure Begun (T : String) (n depth : Nat) (s : State) : Prop where
  ready : Ready T n depth s
  call : ∃ f rest, s.frames = f :: rest ∧ f.start = s.pos ∧ f.captureBase = s.captures.size

/-- From `entry` on the program does what the rules of a ruleset say, and then leaves it. -/
structure Serves (p : Program) (T : String) (n depth ruleset entry : Nat) (rules : Parse Value) :
    Prop where
  found : p.entries[ruleset]? = some entry
  ret : p.ops[Program.retAt]? = some .ret
  retFail : p.ops[Program.retFailAt]? = some .retFail
  runs : ∀ s, Begun T n depth s →
    Ends p T (Returned T) Failed Program.retAt Program.retFailAt entry s s (rules s.calls s.pos)

/-- The frame is that of a call made in the state. -/
structure Frame.IsCall (f : Frame) (s : State) (ruleset pass fail : Nat) : Prop where
  ruleset : f.ruleset = ruleset
  start : f.start = s.pos
  base : f.captureBase = s.captures.size
  pass : f.pass = pass
  fail : f.fail = fail

variable {pass fail : Nat} {rules : Parse Value} {f : Frame} {again : List (Nat × Nat)}

theorem Frame.IsCall.begun (call : f.IsCall s ruleset pass fail) (ready : Ready T n (depth + 1) s)
    (lt : ruleset < n) (fresh : s.NotUnderWay ruleset)
    (answer : ∀ seed, f.best = some seed → s.pos ≤ seed.stop ∧ IsBoundary T seed.stop) :
    Begun T n depth (s.calling f) :=
  ⟨ready.calling lt fresh (by rw [Frame.key, call.ruleset, call.start]) answer,
    ⟨f, s.frames, rfl, call.start, call.base⟩⟩

/-- The call ends with a result. -/
theorem Passed.popped {s' : State} {stop : Nat} (h : Passed T ((s.calling f).noted again) stop [] s')
    {stop' : Nat} (forward : s.pos ≤ stop') (boundary : IsBoundary T stop') (v : Value) :
    Returned T (s.noted again) stop' v
      { s' with frames := s.frames.map (Frame.noted again), pos := stop', result := some v } :=
  ⟨⟨⟨h.kept.marks, h.kept.captureStarts, h.kept.loops, h.kept.quiet, rfl⟩, rfl, forward, boundary,
    h.captures⟩, rfl⟩

/-- The call begins again, or ends without a result. -/
theorem Dropped.restart {s' : State} (h : Dropped ((s.calling f).noted again) s')
    (result : Option Value) :
    Failed (s.noted again) { s'.keepCaptures s.captures.size with
      frames := s.frames.map (Frame.noted again), pos := s.pos, result } :=
  ⟨⟨h.kept.marks, h.kept.captureStarts, h.kept.loops, h.kept.quiet, rfl⟩, rfl,
    State.captures_keepCaptures (s := s) h.captures⟩

/-- A call that failed with an answer ends with that answer. -/
theorem Failed.popped {s' : State} (h : Failed ((s.calling f).noted again) s')
    {stop : Nat} (forward : s.pos ≤ stop) (boundary : IsBoundary T stop) (v : Value) :
    Returned T (s.noted again) stop v { s'.keepCaptures s.captures.size with
      frames := s.frames.map (Frame.noted again), pos := stop, result := some v } :=
  ⟨⟨⟨h.kept.marks, h.kept.captureStarts, h.kept.loops, h.kept.quiet, rfl⟩, rfl, forward, boundary,
    by rw [List.append_nil]; exact State.captures_keepCaptures (s := s) h.dropped.captures⟩, rfl⟩

theorem Failed.notUnderWay {s' : State} (h : Failed (s.noted again) s')
    (fresh : s.NotUnderWay ruleset) : s'.NotUnderWay ruleset := by
  have frames : s'.frames = s.frames.map (Frame.noted again) := h.kept.frames
  have pos : s'.pos = s.pos := h.pos
  rw [State.NotUnderWay, frames, pos, List.map_map]
  exact fresh

theorem Failed.size_eq {s' : State} (h : Failed s s') : s'.captures.size = s.captures.size := by
  simpa using congrArg List.length h.captures

theorem Serves.lt_size {entry : Nat} (serves : Serves p T n depth ruleset entry rules) :
    ruleset < p.entries.size :=
  (Array.getElem?_eq_some_iff.1 serves.found).1

/-- A call that is left finds its frame, and the place where its ruleset begins. -/
theorem Serves.leaves {entry : Nat} {rest : List Frame} {s' : State}
    (serves : Serves p T n depth ruleset entry rules) (call : f.IsCall s ruleset pass fail)
    (frames : s'.frames = f.noted again :: rest) :
    InRange p T Program.retAt s' ∧ InRange p T Program.retFailAt s' := by
  have found : ∃ f rest, s'.frames = f :: rest ∧ f.ruleset < p.entries.size :=
    ⟨_, _, frames, call.ruleset ▸ serves.lt_size⟩
  constructor
  · simpa only [InRange, serves.ret] using found
  · simpa only [InRange, serves.retFail] using found

/-- What follows an attempt that left no trace can be said of the state before it. -/
theorem Ends.of_failed {t u : State} {op : Nat} {o : Outcome Value} (back : Failed (s.noted again) u)
    (h : Ends p T (Returned T) Failed pass fail op t u o) :
    Ends p T (Returned T) Failed pass fail op t (s.noted again) o :=
  h.imp (fun more _ _ _ done => ⟨.of_failed (back.noted more) done.1, done.2⟩)
    fun more _ lost => (back.noted more).trans lost

/-- A left recursive call whose result got longer begins again and gives it for an answer. -/
theorem Returned.retry {entry stop : Nat} {v : Value} {s' : State}
    (serves : Serves p T n depth ruleset entry rules) (call : f.IsCall s ruleset pass fail)
    (done : Returned T ((s.calling f).noted again) stop v s')
    (growing : (f.noted again).leftRecursive = true)
    (longer : ∀ best, f.best = some best → best.stop < stop) :
    ∃ u f', Reaches p T Program.retAt s' entry (u.calling f') ∧ Failed (s.noted again) u ∧
      f'.IsCall u ruleset pass fail ∧ f'.leftRecursive = true ∧ f'.best = some ⟨v, stop⟩ := by
  obtain ⟨done, result⟩ := done
  have frames : s'.frames = f.noted again :: s.frames.map (Frame.noted again) := done.kept.frames
  have pos : s'.pos = stop := done.pos
  have back := done.dropped.restart none
  have range := (serves.leaves call frames).1
  have again_ : (f.noted again).IsCall s ruleset pass fail :=
    ⟨call.ruleset, call.start, call.base, call.pass, call.fail⟩
  have best : (f.noted again).best = f.best := rfl
  refine ⟨_, { f.noted again with best := some ⟨v, stop⟩ }, .one range ?_, back, ?_, growing, rfl⟩
  · generalize f.noted again = g at frames growing again_ best
    cases answer : f.best with
    | none =>
        simp [step, serves.ret, State.leave, frames, growing, best, answer, pos, result,
          State.keepCaptures, State.calling, again_.start, again_.base, again_.ruleset, serves.found]
    | some seed =>
        simp [step, serves.ret, State.leave, frames, growing, best, answer, pos, result,
          State.keepCaptures, State.calling, again_.start, again_.base, again_.ruleset, serves.found,
          longer seed answer]
  · exact ⟨call.ruleset, call.start.trans back.pos.symm, call.base.trans back.size_eq.symm, call.pass,
      call.fail⟩

section

variable {entry : Nat} {s' : State} (serves : Serves p T n depth ruleset entry rules)
  (call : f.IsCall s ruleset pass fail)

include serves call

/-- A call that was not made again meanwhile ends with its first result. -/
theorem Returned.leave {stop : Nat} {v : Value} (done : Returned T ((s.calling f).noted again) stop v s')
    (once : (f.noted again).leftRecursive = false) :
    ∃ t, Reaches p T Program.retAt s' pass t ∧ Returned T (s.noted again) stop v t := by
  have frames : s'.frames = f.noted again :: s.frames.map (Frame.noted again) := done.1.kept.frames
  have leaves : (f.noted again).pass = pass := call.pass
  have result := done.2
  have pos : s'.pos = stop := done.1.pos
  refine ⟨_, .one (serves.leaves call frames).1 ?_, done.1.popped done.1.forward done.1.boundary v⟩
  simp [step, serves.ret, State.leave, frames, once, leaves, result, pos]

/-- A left recursive call whose result got no longer ends with its best one. -/
theorem Returned.leaveBest {stop : Nat} {v : Value} {best : Seed}
    (done : Returned T ((s.calling f).noted again) stop v s') (growing : f.leftRecursive = true)
    (answer : f.best = some best) (longer : ¬ best.stop < stop) (forward : s.pos ≤ best.stop)
    (boundary : IsBoundary T best.stop) :
    ∃ t, Reaches p T Program.retAt s' pass t ∧ Returned T (s.noted again) best.stop best.value t := by
  have frames : s'.frames = f.noted again :: s.frames.map (Frame.noted again) := done.1.kept.frames
  have pos : s'.pos = stop := done.1.pos
  refine ⟨_, .one (serves.leaves call frames).1 ?_, done.1.popped forward boundary best.value⟩
  simp [step, serves.ret, State.leave, frames, Frame.noted, growing, answer, pos, longer, call.pass]

/-- A call that failed without a result fails. -/
theorem Failed.leave (lost : Failed ((s.calling f).noted again) s') (answer : f.best = none) :
    ∃ t, Reaches p T Program.retFailAt s' fail t ∧ Failed (s.noted again) t := by
  have frames : s'.frames = f.noted again :: s.frames.map (Frame.noted again) := lost.kept.frames
  refine ⟨_, .one (serves.leaves call frames).2 ?_, lost.dropped.restart s'.result⟩
  simp only [step, serves.retFail, State.leaveFailed, frames, Frame.noted, answer, call.fail, call.base,
    call.start]
  rfl

/-- A call that failed after it had a result ends with it. -/
theorem Failed.leaveBest {best : Seed} (lost : Failed ((s.calling f).noted again) s')
    (answer : f.best = some best) (forward : s.pos ≤ best.stop) (boundary : IsBoundary T best.stop) :
    ∃ t, Reaches p T Program.retFailAt s' pass t ∧
      Returned T (s.noted again) best.stop best.value t := by
  have frames : s'.frames = f.noted again :: s.frames.map (Frame.noted again) := lost.kept.frames
  refine ⟨_, .one (serves.leaves call frames).2 ?_, lost.popped forward boundary best.value⟩
  simp only [step, serves.retFail, State.leaveFailed, frames, Frame.noted, answer, call.pass, call.base]

end

/-- A call that is left recursive grows its result, by induction on how often it can. -/
theorem Ends.grow {entry : Nat} (serves : Serves p T n depth ruleset entry rules)
    (lt : ruleset < n) (fuel : Nat) (best : Seed) (s : State) (f : Frame)
    (ready : Ready T n (depth + 1) s) (fresh : s.NotUnderWay ruleset)
    (call : f.IsCall s ruleset pass fail) (growing : f.leftRecursive = true)
    (answer : f.best = some best) (forward : s.pos ≤ best.stop) (boundary : IsBoundary T best.stop)
    (enough : T.utf8ByteSize < fuel + best.stop) :
    Ends p T (Returned T) Failed pass fail entry (s.calling f) s
      (Parse.grow (fun answer => rules (⟨ruleset, s.pos, answer⟩ :: s.calls) s.pos) fuel best) := by
  induction fuel generalizing best s f with
  | zero =>
      have := boundary.le
      omega
  | succ fuel ih =>
      have begun : Begun T n depth (s.calling f) := call.begun ready lt fresh fun seed same => by
        cases answer.symm.trans same
        exact ⟨forward, boundary⟩
      have calls : (s.calling f).calls = ⟨ruleset, s.pos, some best⟩ :: s.calls := by
        simp [State.calls, State.calling, Frame.openCall, call.ruleset, call.start, answer]
      have attempt := serves.runs _ begun
      rw [calls] at attempt
      refine attempt.either ?_ ?_
      · intro again stop v s' done
        have pos : s'.pos = stop := done.1.pos
        by_cases longer : best.stop < stop
        · rw [if_pos longer]
          obtain ⟨u, f', path, back, call', growing', answer'⟩ := done.retry serves call
            (by simp [Frame.noted, growing]) (by simp [answer, longer])
          have pos' : u.pos = s.pos := back.pos
          have later := ih ⟨v, stop⟩ u f' (back.ready ready) (back.notUnderWay fresh) call' growing' answer'
            (pos' ▸ done.1.forward) done.1.boundary (by dsimp only; omega)
          rw [back.kept.calls, pos'] at later
          exact Ends.after path (.of_failed back later)
        · rw [if_neg longer]
          obtain ⟨t, path, back⟩ := done.leaveBest serves call growing answer longer forward boundary
          exact (Ends.of_pass back).after path
      · intro again s' lost
        obtain ⟨t, path, back⟩ := lost.leaveBest serves call answer forward boundary
        exact (Ends.of_pass back).after path

/-- A call that is under way gives its answer and is noted. -/
theorem Ends.reenter {op : Nat} (held : p.ops[op]? = some (.call ruleset pass fail))
    (below : ruleset < p.entries.size) (ready : Ready T n depth s)
    (found : (s.frames.find? fun f => f.isAt ruleset s.pos) = some f) :
    Ends p T (Returned T) Failed pass fail op s s (Parse.call T ruleset rules s.calls s.pos) := by
  have member := List.mem_of_find?_eq_some found
  have key : f.key = (ruleset, s.pos) := Frame.isAt_iff.1 (by simpa using List.find?_some found)
  have range : InRange p T op s := by simp only [InRange, held, below]
  have under := s.find?_calls ruleset
  rw [found, Option.map_some] at under
  rw [Parse.call, under]
  cases answer : f.best with
  | none =>
      simp only [Frame.openCall, answer]
      refine Or.inr ⟨s.noted [(ruleset, s.pos)], .one range ?_, .refl _⟩
      simp only [step, held, State.call, found, answer, Frame.noteRecursion_eq ready.distinct]
      rfl
  | some seed =>
      simp only [Frame.openCall, answer]
      obtain ⟨forward, boundary⟩ := ready.answers f member seed answer
      have start : f.start = s.pos := congrArg Prod.snd key
      refine Or.inr ⟨{ s.noted [(ruleset, s.pos)] with result := some seed.value, pos := seed.stop },
        .one range ?_, ⟨⟨rfl, rfl, rfl, rfl, rfl⟩, rfl, start ▸ forward, boundary, by simp⟩, rfl⟩
      simp only [step, held, State.call, found, answer, Frame.noteRecursion_eq ready.distinct]
      rfl

/-- From its entry on a new call does what the meaning of calls says. -/
theorem Ends.begun {entry : Nat} (serves : Serves p T n depth ruleset entry rules) (lt : ruleset < n)
    (ready : Ready T n (depth + 1) s) (found : (s.frames.find? fun f => f.isAt ruleset s.pos) = none)
    (call : f.IsCall s ruleset pass fail) (answer : f.best = none) (plain : f.leftRecursive = false) :
    Ends p T (Returned T) Failed pass fail entry (s.calling f) s
      (Parse.call T ruleset rules s.calls s.pos) := by
  have fresh := State.notUnderWay_of_find? found
  have under := s.find?_calls ruleset
  rw [found, Option.map_none] at under
  rw [Parse.call, under]
  have calls : (s.calling f).calls = ⟨ruleset, s.pos, none⟩ :: s.calls := by
    simp [State.calls, State.calling, Frame.openCall, call.ruleset, call.start, answer]
  have attempt := serves.runs _ (call.begun ready lt fresh (by simp [answer]))
  rw [calls] at attempt
  dsimp only
  change Ends p T _ _ _ _ entry (s.calling f) (s.calling f)
    (rules (⟨ruleset, s.pos, none⟩ :: s.calls) s.pos) at attempt
  rcases attempt with overflows | arrives
  · exact Or.inl overflows
  · cases outcome : rules (⟨ruleset, s.pos, none⟩ :: s.calls) s.pos with
    | pass stop v again =>
        rw [outcome] at arrives
        obtain ⟨s', path, done⟩ := arrives
        have key : f.key = (ruleset, s.pos) := by rw [Frame.key, call.ruleset, call.start]
        dsimp only
        by_cases recursive : (ruleset, s.pos) ∈ again
        · rw [if_pos recursive]
          obtain ⟨u, f', more, back, call', growing, answer'⟩ := done.retry serves call
            (by simp [Frame.noted, key, recursive]) (by simp [answer])
          have pos' : u.pos = s.pos := back.pos
          have grown := Ends.grow serves lt (T.utf8ByteSize + 1) ⟨v, stop⟩ u f' (back.ready ready)
            (back.notUnderWay fresh) call' growing answer' (pos' ▸ done.1.forward) done.1.boundary
            (by dsimp only; omega)
          rw [back.kept.calls, pos'] at grown
          exact (Ends.after (path.trans more) (.of_failed back grown)).noting
        · rw [if_neg recursive]
          obtain ⟨t, more, back⟩ := done.leave serves call (by simp [Frame.noted, key, recursive, plain])
          exact Or.inr ⟨t, path.trans more, back⟩
    | fail again =>
        rw [outcome] at arrives
        obtain ⟨s', path, lost⟩ := arrives
        obtain ⟨t, more, back⟩ := lost.leave serves call answer
        exact Or.inr ⟨t, path.trans more, back⟩
    | error fault =>
        rw [outcome] at arrives
        exact Or.inr arrives
    | deep =>
        rw [outcome] at arrives
        exact arrives.elim

/-- A call does what the meaning of calls says, when the entry of its ruleset does what the
rules say. -/
theorem Means.call {entry : Nat} (serves : Serves p T n depth ruleset entry rules) (lt : ruleset < n)
    (pass : Nat) :
    Means p T (Ready T n (depth + 1)) (Returned T) Failed pass (Fragment.call ruleset)
      (Parse.call T ruleset rules) := by
  intro base fail held s ready
  have here : p.ops[base]? = some (.call ruleset pass fail) := held.head
  cases found : s.frames.find? fun f => f.isAt ruleset s.pos with
  | some f => exact Ends.reenter here serves.lt_size ready found
  | none =>
      have range : InRange p T base s := by simp only [InRange, here, serves.lt_size]
      have entered : step p (Buffer.complete T) base s = .next entry
          (s.calling { ruleset, pass, fail, start := s.pos, captureBase := s.captures.size }) := by
        simp only [step, here, State.call, found, serves.found, State.calling]
      exact Ends.after (.one range entered)
        (Ends.begun serves lt ready found ⟨rfl, rfl, rfl, rfl, rfl⟩ rfl rfl)

end

end PegFlow
