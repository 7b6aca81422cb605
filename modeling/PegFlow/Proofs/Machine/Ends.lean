/-
# PegFlow.Proofs.Machine.Ends -- how running a part of a program ends

A fragment that goes on at `pass` or `fail` does what a `Parse` says when every run from
its entry ends as the outcome of the parse says (`Means`): at `pass` in a state that has
`Passed`, at `fail` in a state that has `Failed`, or at a fault. A sequence that is still
to be undone may leave captures behind when it fails (`Dropped`). The one other end is
where so many lookaheads are open that they cannot be counted (`Overflows`).

What was called again meanwhile is noted in the frames, and nothing else about what is
open changes (`Kept`).
-/
import PegFlow.Proofs.Machine.Path
import PegFlow.Proofs.Meaning.Parse

namespace PegFlow

set_option autoImplicit false

open Text

/-! ## What is open -/

namespace Frame

/-- The ruleset of a frame and where its call began. -/
def key (f : Frame) : Nat × Nat := (f.ruleset, f.start)

/-- The call that a frame stands for. -/
def openCall (f : Frame) : OpenCall := ⟨f.ruleset, f.start, f.best⟩

/-- The frame after some calls were made again. -/
def noted (again : List (Nat × Nat)) (f : Frame) : Frame :=
  { f with leftRecursive := f.leftRecursive || again.contains f.key }

theorem noted_nil (f : Frame) : f.noted [] = f := by
  simp [noted]

theorem noted_noted (again more : List (Nat × Nat)) (f : Frame) :
    (f.noted again).noted more = f.noted (again ++ more) := by
  simp [noted, key, Bool.or_assoc]

end Frame

namespace State

/-- The calls under way. -/
def calls (s : State) : List OpenCall := s.frames.map Frame.openCall

/-- The state after some calls were made again. -/
def noted (again : List (Nat × Nat)) (s : State) : State :=
  { s with frames := s.frames.map (Frame.noted again) }

@[simp] theorem noted_nil (s : State) : s.noted [] = s := by
  have same : Frame.noted [] = id := funext Frame.noted_nil
  simp [noted, same]

@[simp] theorem noted_noted (again more : List (Nat × Nat)) (s : State) :
    (s.noted again).noted more = s.noted (again ++ more) := by
  have same : Frame.noted more ∘ Frame.noted again = Frame.noted (again ++ more) :=
    funext (Frame.noted_noted again more)
  simp [noted, same]

@[simp] theorem calls_noted (again : List (Nat × Nat)) (s : State) :
    (s.noted again).calls = s.calls := by
  simp [calls, noted, Frame.openCall, Frame.noted, Function.comp_def]

theorem toList_keepCaptures (s : State) (n : Nat) :
    (s.keepCaptures n).captures.toList = s.captures.toList.take n := Array.toList_shrink

/-- Keeping as many captures as there were brings those back. -/
theorem captures_keepCaptures {s s' : State} (h : s.captures.toList <+: s'.captures.toList) :
    (s'.keepCaptures s.captures.size).captures.toList = s.captures.toList := by
  obtain ⟨more, captures⟩ := h
  rw [toList_keepCaptures, ← captures]
  exact List.take_left' (by simp)

end State

/-- What is open is as before. -/
structure Kept (s s' : State) : Prop where
  marks : s'.marks = s.marks
  captureStarts : s'.captureStarts = s.captureStarts
  loops : s'.loops = s.loops
  quiet : s'.quiet = s.quiet
  frames : s'.frames = s.frames

theorem Kept.refl (s : State) : Kept s s := ⟨rfl, rfl, rfl, rfl, rfl⟩

theorem Kept.trans {s s' s'' : State} (one : Kept s s') (other : Kept s' s'') : Kept s s'' :=
  ⟨other.marks.trans one.marks, other.captureStarts.trans one.captureStarts,
    other.loops.trans one.loops, other.quiet.trans one.quiet, other.frames.trans one.frames⟩

theorem Kept.noted {s s' : State} (h : Kept s s') (again : List (Nat × Nat)) :
    Kept (s.noted again) (s'.noted again) :=
  ⟨h.marks, h.captureStarts, h.loops, h.quiet, by simp [State.noted, h.frames]⟩

/-! ## States before and after -/

/-- A state in which a part of a program may begin over the text `T`, when there are `n`
rulesets and calls may be `depth` deeper. -/
structure Ready (T : String) (n depth : Nat) (s : State) : Prop where
  boundary : IsBoundary T s.pos
  distinct : (s.frames.map Frame.key).Nodup
  inRange : ∀ f ∈ s.frames, f.ruleset < n ∧ IsBoundary T f.start
  answers : ∀ f ∈ s.frames, ∀ seed, f.best = some seed → f.start ≤ seed.stop ∧ IsBoundary T seed.stop
  room : n * (T.utf8ByteSize + 1) ≤ s.frames.length + depth

/-- The part matched up to `stop` with these captures. -/
structure Passed (T : String) (s : State) (stop : Nat) (captures : List Capture) (s' : State) :
    Prop where
  kept : Kept s s'
  pos : s'.pos = stop
  forward : s.pos ≤ stop
  boundary : IsBoundary T stop
  captures : s'.captures.toList = s.captures.toList ++ captures

/-- The ruleset matched up to `stop` with this output. -/
def Returned (T : String) (s : State) (stop : Nat) (v : Value) (s' : State) : Prop :=
  Passed T s stop [] s' ∧ s'.result = some v

/-- The part failed without a trace. -/
structure Failed (s s' : State) : Prop where
  kept : Kept s s'
  pos : s'.pos = s.pos
  captures : s'.captures.toList = s.captures.toList

/-- The part failed and may have moved forward and recorded captures. -/
structure Dropped (s s' : State) : Prop where
  kept : Kept s s'
  captures : s.captures.toList <+: s'.captures.toList

theorem Failed.dropped {s s' : State} (h : Failed s s') : Dropped s s' :=
  ⟨h.kept, h.captures ▸ List.prefix_rfl⟩

theorem Passed.refl {T : String} {s : State} (boundary : IsBoundary T s.pos) :
    Passed T s s.pos [] s :=
  ⟨.refl s, rfl, Nat.le_refl _, boundary, by simp⟩

theorem Failed.refl (s : State) : Failed s s := ⟨.refl s, rfl, rfl⟩

theorem Passed.trans {T : String} {s s' s'' : State} {middle stop : Nat}
    {first second : List Capture} (one : Passed T s middle first s')
    (other : Passed T s' stop second s'') : Passed T s stop (first ++ second) s'' :=
  ⟨one.kept.trans other.kept, other.pos, Nat.le_trans one.forward (one.pos ▸ other.forward),
    other.boundary, by rw [other.captures, one.captures, List.append_assoc]⟩

theorem Passed.noted {T : String} {s s' : State} {stop : Nat} {captures : List Capture}
    (h : Passed T s stop captures s') (again : List (Nat × Nat)) :
    Passed T (s.noted again) stop captures (s'.noted again) :=
  ⟨h.kept.noted again, h.pos, h.forward, h.boundary, h.captures⟩

theorem Failed.noted {s s' : State} (h : Failed s s') (again : List (Nat × Nat)) :
    Failed (s.noted again) (s'.noted again) :=
  ⟨h.kept.noted again, h.pos, h.captures⟩

theorem Failed.trans {s s' s'' : State} (one : Failed s s') (other : Failed s' s'') :
    Failed s s'' :=
  ⟨one.kept.trans other.kept, other.pos.trans one.pos, other.captures.trans one.captures⟩

theorem Kept.calls {s s' : State} {again : List (Nat × Nat)} (h : Kept (s.noted again) s') :
    s'.calls = s.calls := by
  rw [← State.calls_noted again s, State.calls, h.frames]
  rfl

/-- A state is ready where another one was, after some calls were made again. -/
theorem Ready.next {T : String} {n depth : Nat} {s s' : State} (ready : Ready T n depth s)
    {again : List (Nat × Nat)} (kept : Kept (s.noted again) s') (boundary : IsBoundary T s'.pos) :
    Ready T n depth s' := by
  have frames : s'.frames = s.frames.map (Frame.noted again) := kept.frames
  refine ⟨boundary, ?_, ?_, ?_, by simpa [frames] using ready.room⟩
  · rw [frames, List.map_map]
    exact ready.distinct
  · rw [frames, List.forall_mem_map]
    exact ready.inRange
  · rw [frames, List.forall_mem_map]
    exact ready.answers

/-! ## Runs that end as an outcome says -/

open Machine

/-- The run from `op` in `s` ends as the outcome says: at `pass`, at `fail`, or at a fault.
What holds of the state then is said about the state `r`. -/
def Arrives {α : Type} (p : Program) (T : String) (won : State → Nat → α → State → Prop)
    (lost : State → State → Prop) (pass fail op : Nat) (s r : State) : Outcome α → Prop
  | .pass stop v again => ∃ s', Reaches p T op s pass s' ∧ won (r.noted again) stop v s'
  | .fail again => ∃ s', Reaches p T op s fail s' ∧ lost (r.noted again) s'
  | .error f => Faults p T op s f
  | .deep => False

/-- Every run from `op` in `s` ends as the outcome says, unless so many lookaheads are open
on its way that they cannot be counted. -/
def Ends {α : Type} (p : Program) (T : String) (won : State → Nat → α → State → Prop)
    (lost : State → State → Prop) (pass fail op : Nat) (s r : State) (o : Outcome α) : Prop :=
  Overflows p T op s ∨ Arrives p T won lost pass fail op s r o

section

variable {α β : Type} {p : Program} {T : String}
variable {won : State → Nat → α → State → Prop} {won' : State → Nat → β → State → Prop}
variable {lost lost' : State → State → Prop} {pass fail pass' fail' op : Nat} {s r r' : State}

theorem Ends.of_pass {stop : Nat} {v : α} (h : won r stop v s) :
    Ends p T won lost pass fail pass s r (.pass stop v []) :=
  Or.inr ⟨s, .here pass s, by simpa using h⟩

theorem Ends.of_fail (h : lost r s) : Ends p T won lost pass fail fail s r (.fail []) :=
  Or.inr ⟨s, .here fail s, by simpa using h⟩

theorem Ends.after {op' : Nat} {s' : State} {o : Outcome α} (path : Reaches p T op s op' s')
    (h : Ends p T won lost pass fail op' s' r o) : Ends p T won lost pass fail op s r o := by
  rcases h with overflows | arrives
  · exact Or.inl (overflows.after path)
  · refine Or.inr ?_
    cases o with
    | pass stop v again =>
        obtain ⟨t, rest, done⟩ := arrives
        exact ⟨t, path.trans rest, done⟩
    | fail again =>
        obtain ⟨t, rest, done⟩ := arrives
        exact ⟨t, path.trans rest, done⟩
    | error f => exact Faults.after path arrives
    | deep => exact arrives

theorem Ends.noting {again : List (Nat × Nat)} {o : Outcome α}
    (h : Ends p T won lost pass fail op s (r.noted again) o) :
    Ends p T won lost pass fail op s r (o.noting again) := by
  refine h.imp_right fun arrives => ?_
  cases o with
  | pass stop v more => simpa [Arrives, Outcome.noting] using arrives
  | fail more => simpa [Arrives, Outcome.noting] using arrives
  | error f => exact arrives
  | deep => exact arrives

/-- Two parts one after the other: the second one begins where the first one ends. -/
theorem Ends.either {o : Outcome α} {passed : Nat → α → Outcome β} {failed : Outcome β}
    (h : Ends p T won lost pass fail op s r o)
    (onPass : ∀ again stop v s', won (r.noted again) stop v s' →
      Ends p T won' lost' pass' fail' pass s' (r'.noted again) (passed stop v))
    (onFail : ∀ again s', lost (r.noted again) s' →
      Ends p T won' lost' pass' fail' fail s' (r'.noted again) failed) :
    Ends p T won' lost' pass' fail' op s r' (o.either passed failed) := by
  rcases h with overflows | arrives
  · exact Or.inl overflows
  · cases o with
    | pass stop v again =>
        obtain ⟨t, path, done⟩ := arrives
        exact ((onPass again stop v t done).after path).noting
    | fail again =>
        obtain ⟨t, path, done⟩ := arrives
        exact ((onFail again t done).after path).noting
    | error f => exact Or.inr arrives
    | deep => exact Or.inr arrives

theorem Ends.map {o : Outcome α} {f : Nat → α → β} (h : Ends p T won lost pass fail op s r o)
    (onPass : ∀ again stop v s', won (r.noted again) stop v s' →
      won' (r'.noted again) stop (f stop v) s')
    (onFail : ∀ again s', lost (r.noted again) s' → lost' (r'.noted again) s') :
    Ends p T won' lost' pass fail op s r' (o.map f) :=
  h.either (fun again stop v s' done => .of_pass (onPass again stop v s' done))
    fun again s' done => .of_fail (onFail again s' done)

/-- After the end there may be more steps, and what is said about one state can be said
about another. -/
theorem Ends.onward {won' : State → Nat → α → State → Prop} {o : Outcome α}
    (h : Ends p T won lost pass fail op s r o)
    (onPass : ∀ again stop v s', won (r.noted again) stop v s' →
      ∃ t, Reaches p T pass s' pass' t ∧ won' (r'.noted again) stop v t)
    (onFail : ∀ again s', lost (r.noted again) s' →
      ∃ t, Reaches p T fail s' fail' t ∧ lost' (r'.noted again) t) :
    Ends p T won' lost' pass' fail' op s r' o := by
  refine h.imp_right fun arrives => ?_
  cases o with
  | pass stop v again =>
      obtain ⟨s', path, done⟩ := arrives
      obtain ⟨t, more, done'⟩ := onPass again stop v s' done
      exact ⟨t, path.trans more, done'⟩
  | fail again =>
      obtain ⟨s', path, done⟩ := arrives
      obtain ⟨t, more, done'⟩ := onFail again s' done
      exact ⟨t, path.trans more, done'⟩
  | error f => exact arrives
  | deep => exact arrives

theorem Ends.imp {won' : State → Nat → α → State → Prop} {o : Outcome α}
    (h : Ends p T won lost pass fail op s r o)
    (onPass : ∀ again stop v s', won (r.noted again) stop v s' → won' (r'.noted again) stop v s')
    (onFail : ∀ again s', lost (r.noted again) s' → lost' (r'.noted again) s') :
    Ends p T won' lost' pass fail op s r' o :=
  h.onward (fun again stop v s' done => ⟨s', .here pass s', onPass again stop v s' done⟩)
    fun again s' done => ⟨s', .here fail s', onFail again s' done⟩

end

/-! ## Fragments in their place -/

/-- The array has these items from place `base` on. -/
def Holds {α : Type} (xs : Array α) (base : Nat) (items : List α) : Prop :=
  ∀ (i : Nat) (x : α), items[i]? = some x → xs[base + i]? = some x

namespace Holds

variable {α : Type} {xs : Array α} {base : Nat} {x : α} {items more : List α}

theorem head (h : Holds xs base (x :: items)) : xs[base]? = some x := h 0 x rfl

theorem tail (h : Holds xs base (x :: items)) : Holds xs (base + 1) items := fun i y found => by
  rw [Nat.add_assoc, Nat.add_comm 1 i]
  exact h (i + 1) y (by simpa using found)

theorem left (h : Holds xs base (items ++ more)) : Holds xs base items := fun i y found =>
  h i y (by rw [List.getElem?_append_left (List.getElem?_eq_some_iff.1 found).1, found])

theorem right (h : Holds xs base (items ++ more)) : Holds xs (base + items.length) more :=
  fun i y found => by
    rw [Nat.add_assoc]
    exact h (items.length + i) y (by rw [List.getElem?_append_right (by omega)]; simpa using found)

end Holds

/-- Wherever the fragment is placed to go on at `pass`, it does what the parse says. -/
def Means {α : Type} (p : Program) (T : String) (ready : State → Prop)
    (won : State → Nat → α → State → Prop) (lost : State → State → Prop) (pass : Nat)
    (fragment : Fragment) (parse : Parse α) : Prop :=
  ∀ base fail, Holds p.ops base (fragment base pass fail).ops → ∀ s, ready s →
    Ends p T won lost pass fail (fragment base pass fail).entry s s (parse s.calls s.pos)

end PegFlow
