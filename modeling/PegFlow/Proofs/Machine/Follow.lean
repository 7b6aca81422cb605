/-
# PegFlow.Proofs.Machine.Follow -- a run over the text so far

`Follows g library b P op s` says that a run over the buffer `b`, which shows the text `P`
so far, has come to `op` in `s` just as the run over every whole text does that begins
with `P`. Steps, further text and the end of the text keep this (`Follows.step`,
`Follows.append`, `Follows.close`).

Over a whole text the run comes to an end (`AnnotatedGrammar.finishes`), so it does over
the text so far, or stops there for more (`Follows.stops`).
-/
import PegFlow.Proofs.Machine.Rules
import PegFlow.Proofs.Machine.Shape
import PegFlow.Proofs.Machine.Window

namespace PegFlow

set_option autoImplicit false

open Text

namespace Machine

/-- So many ops run over a buffer lead from one op and state to another. -/
inductive Steps (p : Program) (b : Buffer) : Nat → Nat → State → Nat → State → Prop
  | stay (op : Nat) (s : State) : Steps p b 0 op s op s
  | more {n op op' op'' : Nat} {s s' s'' : State} (taken : step p b op s = .next op' s')
      (rest : Steps p b n op' s' op'' s'') : Steps p b (n + 1) op s op'' s''

/-- The machine does not go on after the op. -/
def Stops (p : Program) (b : Buffer) (op : Nat) (s : State) : Prop :=
  ∀ op' s', step p b op s ≠ .next op' s'

theorem Steps.settle_eq {p : Program} {b : Buffer} {n op op' : Nat} {s s' : State}
    (h : Steps p b n op s op' s') : State.settle p b op s = State.settle p b op' s' := by
  induction h with
  | stay => rfl
  | more taken _ ih =>
      rw [State.settle, taken]
      exact ih

/-- The run over a whole text is at its end. -/
def Final (p : Program) (T : String) (op : Nat) (s : State) : Prop :=
  p.ops[op]? = some .accept ∨ p.ops[op]? = some .reject ∨
    ∃ f t, step p (Buffer.complete T) op s = .fault f t

theorem step_accept {p : Program} {b : Buffer} {op : Nat} {s : State}
    (h : p.ops[op]? = some .accept) : step p b op s = .halt s.accepted := by
  simp only [step, h]
  rfl

theorem step_reject {p : Program} {b : Buffer} {op : Nat} {s : State}
    (h : p.ops[op]? = some .reject) : step p b op s = .halt s.rejected := by
  simp only [step, h]
  rfl

theorem Final.stops {p : Program} {T : String} {op : Nat} {s : State} (h : Final p T op s) :
    Stops p (Buffer.complete T) op s := by
  intro op' s' taken
  rcases h with accept | reject | ⟨f, t, fault⟩
  · cases (step_accept accept).symm.trans taken
  · cases (step_reject reject).symm.trans taken
  · cases fault.symm.trans taken

/-- A path over a whole text that ends, in range to the last. -/
def Finishes (p : Program) (T : String) (op : Nat) (s : State) : Prop :=
  ∃ op' s', Reaches p T op s op' s' ∧ InRange p T op' s' ∧ Final p T op' s'

/-- What lies on a path that ends has a path that ends. -/
theorem Finishes.onward {p : Program} {T : String} {op op' : Nat} {s s' : State}
    (h : Finishes p T op s) (path : Reaches p T op s op' s') : Finishes p T op' s' := by
  obtain ⟨last, t, whole, range, final⟩ := h
  rcases path.linear whole with rest | rest
  · exact ⟨last, t, rest, range, final⟩
  · obtain ⟨rfl, rfl⟩ := rest.eq_of_stop final.stops
    exact ⟨_, _, .here _ _, range, final⟩

theorem Finishes.inRange {p : Program} {T : String} {op : Nat} {s : State} (h : Finishes p T op s) :
    InRange p T op s := by
  obtain ⟨last, t, path, range, -⟩ := h
  cases path with
  | here => exact range
  | onward here _ _ => exact here

/-- A step in range moves the furthest failure nowhere but into the text. -/
theorem InRange.furthest_le {p : Program} {T : String} {op : Nat} {s : State} (range : InRange p T op s)
    (le : s.furthest ≤ T.utf8ByteSize) (b : Buffer) :
    (step p b op s).state.furthest ≤ T.utf8ByteSize := by
  rcases (step_within p b op s).furthest with same | ⟨moved, id, pass, fail, found⟩
  · rwa [same]
  · rw [InRange, found] at range
    rw [moved]
    exact range.2.le

theorem Reaches.furthest_le {p : Program} {T : String} {op op' : Nat} {s s' : State}
    (path : Reaches p T op s op' s') (le : s.furthest ≤ T.utf8ByteSize) :
    s'.furthest ≤ T.utf8ByteSize := by
  induction path with
  | here => exact le
  | onward range taken _ ih =>
      have here := range.furthest_le le (Buffer.complete T)
      rw [taken] at here
      exact ih here

theorem Finishes.final {p : Program} {T : String} {op : Nat} {s : State} (h : Finishes p T op s)
    (stops : Stops p (Buffer.complete T) op s) : Final p T op s := by
  obtain ⟨last, t, path, -, final⟩ := h
  obtain ⟨rfl, rfl⟩ := path.eq_of_stop stops
  exact final

end Machine

open Machine

namespace AnnotatedGrammar

/-- The run over a whole text comes to an end. -/
theorem finishes {g : AnnotatedGrammar} (library : Library) {T : String} (linked : g.Linked)
    (fits : T.utf8ByteSize ≤ Buffer.maxOffset) :
    Finishes (Program.ofGrammar g library) T (Program.ofGrammar g library).root (g.first library) := by
  obtain ⟨acceptAt, accept, reject, ends⟩ := g.ends library linked fits
  rcases ends with ⟨op, s', path, range, uncounted⟩ | arrives
  · obtain ⟨t, fault, -⟩ := uncounted.step_eq range (Buffer.complete T)
    exact ⟨op, s', path, range, Or.inr (Or.inr ⟨_, t, fault⟩)⟩
  · cases meaning : g.meaning library T with
    | pass stop v again =>
        rw [meaning] at arrives
        obtain ⟨s', path, -⟩ := arrives
        exact ⟨acceptAt, s', path, by simp only [InRange, accept], Or.inl accept⟩
    | fail again =>
        rw [meaning] at arrives
        obtain ⟨s', path, -⟩ := arrives
        exact ⟨acceptAt + 1, s', path, by simp only [InRange, reject], Or.inr (Or.inl reject)⟩
    | error f =>
        rw [meaning] at arrives
        obtain ⟨op, s', s'', path, range, fault⟩ := arrives
        exact ⟨op, s', path, range, Or.inr (Or.inr ⟨f, s'', fault⟩)⟩
    | deep =>
        rw [meaning] at arrives
        exact arrives.elim

end AnnotatedGrammar

/-- The run over `b`, which shows the text so far, is where the run over every whole text
is that begins with it. -/
structure Follows (g : AnnotatedGrammar) (library : Library) (b : Buffer) (P : String) (op : Nat)
    (s : State) : Prop where
  shows : b.Shows P
  fits : P.utf8ByteSize ≤ Buffer.maxOffset
  path : ∀ more, (b.closed = true → more = "") → (P ++ more).utf8ByteSize ≤ Buffer.maxOffset →
    Reaches (Program.ofGrammar g library) (P ++ more) (Program.ofGrammar g library).root
      (g.first library) op s

namespace Follows

variable {g : AnnotatedGrammar} {library : Library} {b : Buffer} {P : String} {op : Nat} {s : State}

theorem start (g : AnnotatedGrammar) (library : Library) (minRetained : Nat) :
    Follows g library (Buffer.empty minRetained) "" (Program.ofGrammar g library).root
      (g.first library) :=
  ⟨Buffer.shows_empty minRetained, by simp, fun _ _ _ => .here _ _⟩

theorem whole (g : AnnotatedGrammar) (library : Library) {T : String}
    (fits : T.utf8ByteSize ≤ Buffer.maxOffset) :
    Follows g library (Buffer.complete T) T (Program.ofGrammar g library).root (g.first library) :=
  ⟨Buffer.shows_complete T, fits, fun _ _ _ => .here _ _⟩

theorem close (h : Follows g library b P op s) : Follows g library b.close P op s := by
  refine ⟨h.shows.close, h.fits, fun more ended fits => ?_⟩
  rw [ended rfl] at fits ⊢
  exact h.path "" (fun _ => rfl) fits

theorem append {b' : Buffer} {text : String} (h : Follows g library b P op s)
    (isOpen : b.closed = false) (appended : b.append text = .ok b')
    (fits : (P ++ text).utf8ByteSize ≤ Buffer.maxOffset) : Follows g library b' (P ++ text) op s := by
  obtain ⟨b'', appended', isOpen', -, shows⟩ := Buffer.append_of_open isOpen text
  cases appended.symm.trans appended'
  refine ⟨shows P h.shows, fits, fun more _ fits => ?_⟩
  rw [String.append_assoc] at fits ⊢
  exact h.path (text ++ more) (by simp [isOpen]) fits

theorem finishes (h : Follows g library b P op s) (linked : g.Linked) {more : String}
    (ended : b.closed = true → more = "") (fits : (P ++ more).utf8ByteSize ≤ Buffer.maxOffset) :
    Finishes (Program.ofGrammar g library) (P ++ more) op s :=
  (g.finishes library linked fits).onward (h.path more ended fits)

theorem inRange (h : Follows g library b P op s) (linked : g.Linked) :
    InRange (Program.ofGrammar g library) P op s := by
  have finishes := h.finishes linked (fun _ => rfl) (by rw [String.append_empty]; exact h.fits)
  rw [String.append_empty] at finishes
  exact finishes.inRange

/-- A step over the text so far is one over the text as a whole, unless it asks for more
text or for text that is no longer held. -/
theorem window (h : Follows g library b P op s) (linked : g.Linked) {more : String}
    (ended : b.closed = true → more = "") (fits : (P ++ more).utf8ByteSize ≤ Buffer.maxOffset) :
    PegFlow.step (Program.ofGrammar g library) b op s =
        PegFlow.step (Program.ofGrammar g library) (Buffer.complete (P ++ more)) op s ∨
      Suspends b op s (PegFlow.step (Program.ofGrammar g library) b op s) ∨
      Frees b (PegFlow.step (Program.ofGrammar g library) b op s) :=
  step_window h.shows fits ended (h.inRange linked)

/-- The machine goes on over the text so far only as it does over every whole text. -/
theorem step {op' : Nat} {s' : State} (h : Follows g library b P op s) (linked : g.Linked)
    (taken : PegFlow.step (Program.ofGrammar g library) b op s = .next op' s') :
    Follows g library b P op' s' := by
  refine ⟨h.shows, h.fits, fun more ended fits => ?_⟩
  have range := (h.finishes linked ended fits).inRange
  rcases h.window linked ended fits with same | ⟨-, halted⟩ | ⟨-, _, _, _, freed⟩
  · exact (h.path more ended fits).trans (.one range (same.symm.trans taken))
  · cases halted.symm.trans taken
  · cases freed.symm.trans taken

theorem steps {n op' : Nat} {s' : State} (h : Follows g library b P op s) (linked : g.Linked)
    (taken : Steps (Program.ofGrammar g library) b n op s op' s') : Follows g library b P op' s' := by
  induction taken with
  | stay => exact h
  | more taken _ ih => exact ih (h.step linked taken)

theorem fits_whole (h : Follows g library b P op s) : (P ++ "").utf8ByteSize ≤ Buffer.maxOffset := by
  rw [String.append_empty]
  exact h.fits

theorem furthest_le (h : Follows g library b P op s) : s.furthest ≤ P.utf8ByteSize := by
  have path := h.path "" (fun _ => rfl) h.fits_whole
  rw [String.append_empty] at path
  exact path.furthest_le (Nat.zero_le _)

/-- The run over the text so far stops, by induction on the path over the same text as a
whole. -/
theorem stops (h : Follows g library b P op s) (linked : g.Linked) :
    ∃ n op' s', Steps (Program.ofGrammar g library) b n op s op' s' ∧
      Stops (Program.ofGrammar g library) b op' s' := by
  obtain ⟨last, t, path, -, final⟩ := h.finishes linked (fun _ => rfl) h.fits_whole
  induction path with
  | here op s =>
      refine ⟨0, op, s, .stay op s, fun op' s' taken => ?_⟩
      rcases h.window linked (fun _ => rfl) h.fits_whole with same | ⟨-, halted⟩ | ⟨-, _, _, _, freed⟩
      · exact final.stops op' s' (same.symm.trans taken)
      · cases halted.symm.trans taken
      · cases freed.symm.trans taken
  | onward _ taken _ ih =>
      rcases h.window linked (fun _ => rfl) h.fits_whole with same | ⟨-, halted⟩ | ⟨-, _, _, _, freed⟩
      · have here := same.trans taken
        obtain ⟨n, o, u, steps, stops⟩ := ih (h.step linked here) final
        exact ⟨n + 1, o, u, .more here steps, stops⟩
      · exact ⟨0, _, _, .stay _ _, by simp [Stops, halted]⟩
      · exact ⟨0, _, _, .stay _ _, by simp [Stops, freed]⟩

/-- The run over the text so far halts for more text, if that may come, or at the end of the
program. -/
theorem halted {t : State} (h : Follows g library b P op s) (linked : g.Linked)
    (halt : PegFlow.step (Program.ofGrammar g library) b op s = .halt t) :
    (b.closed = false ∧ t = s.waitingAt op) ∨
      ((Program.ofGrammar g library).ops[op]? = some .accept ∧ t = s.accepted) ∨
      ((Program.ofGrammar g library).ops[op]? = some .reject ∧ t = s.rejected) := by
  rcases h.window linked (fun _ => rfl) h.fits_whole with same | ⟨isOpen, halted⟩ | ⟨-, _, _, _, freed⟩
  · have whole := same.symm.trans halt
    have final := (h.finishes linked (fun _ => rfl) h.fits_whole).final fun op' s' taken => by
      cases whole.symm.trans taken
    rcases final with accept | reject | ⟨f, u, fault⟩
    · cases (step_accept accept).symm.trans whole
      exact Or.inr (Or.inl ⟨accept, rfl⟩)
    · cases (step_reject reject).symm.trans whole
      exact Or.inr (Or.inr ⟨reject, rfl⟩)
    · cases fault.symm.trans whole
  · cases halted.symm.trans halt
    exact Or.inl ⟨isOpen, rfl⟩
  · cases freed.symm.trans halt

end Follows

end PegFlow
