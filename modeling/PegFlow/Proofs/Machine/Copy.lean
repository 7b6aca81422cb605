/-
# PegFlow.Proofs.Machine.Copy -- a part of a program and the way out of it

Where a part of a program is left, it is left for the first time: what a part does is said
about a path from its entry to an exit (`Does`), and that path might go through the part
more than once. To see that it does not, the part is put once more behind the program, with
exits of its own at which there is no op (`Program.withCopy`). A path through the copy ends
where it is left first, and it is a path through the part itself, at other places
(`Program.withCopy_moved`).

`Leaves` is the run of a part up to where it is left, with text that comes meanwhile.
-/
import PegFlow.Proofs.Buffer.Reads
import PegFlow.Proofs.Machine.Relocate
import PegFlow.Proofs.Machine.Visit

namespace PegFlow

set_option autoImplicit false

open Text

/-! ## A copy of a fragment behind a program -/

namespace Fragment

/-- The number of ops of a fragment. -/
def size (f : Fragment) : Nat := (f 2 0 1).ops.length

/-- Wherever a fragment is placed, it has as many ops. -/
theorem Movable.length_eq {f : Fragment} (movable : f.Movable) (base pass fail : Nat) :
    (f base pass fail).ops.length = f.size := by
  let μ : Nat → Nat := fun t => if t = 0 then pass else if t = 1 then fail else base + (t - 2)
  have moved : ∀ i < (f 2 0 1).ops.length, μ (2 + i) = base + i := by
    intro i _
    simp only [μ]
    rw [if_neg (by omega), if_neg (by omega)]
    omega
  have same := congrArg (fun code : Code => code.ops.length) (movable μ 2 base 0 1 moved)
  simpa [Code.relocate, size, μ] using same

end Fragment

namespace Program

variable (p : Program) (f : Fragment)

/-- The fragment behind all ops of the program, with its exits behind it. -/
def copy : Code := f p.ops.size (p.ops.size + f.size) (p.ops.size + f.size + 1)

/-- The program with such a copy. -/
def withCopy : Program := { p with ops := p.ops ++ (p.copy f).ops.toArray }

/-- Where the places of the copy are when the fragment stands at `base`. -/
def copyMap (base pass fail : Nat) : Nat → Nat := fun t =>
  if t < p.ops.size then t
  else if t < p.ops.size + f.size then base + (t - p.ops.size)
  else if t = p.ops.size + f.size then pass
  else fail

variable {p f}

theorem copyMap_of_lt {base pass fail t : Nat} (lt : t < p.ops.size) :
    p.copyMap f base pass fail t = t := if_pos lt

theorem copyMap_pass (base pass fail : Nat) :
    p.copyMap f base pass fail (p.ops.size + f.size) = pass := by
  rw [copyMap, if_neg (by omega), if_neg (by omega), if_pos rfl]

theorem copyMap_fail (base pass fail : Nat) :
    p.copyMap f base pass fail (p.ops.size + f.size + 1) = fail := by
  rw [copyMap, if_neg (by omega), if_neg (by omega), if_neg (by omega)]

theorem copyMap_copy (base pass fail : Nat) {i : Nat} (lt : i < f.size) :
    p.copyMap f base pass fail (p.ops.size + i) = base + i := by
  rw [copyMap, if_neg (by omega), if_pos (by omega)]
  omega

/-- The fragment where it stands is the copy at other places. -/
theorem copy_relocate (movable : f.Movable) (base pass fail : Nat) :
    f base pass fail = (p.copy f).relocate (p.copyMap f base pass fail) := by
  have moved := movable (p.copyMap f base pass fail) p.ops.size base (p.ops.size + f.size)
    (p.ops.size + f.size + 1) fun i lt => copyMap_copy base pass fail (movable.length_eq _ _ _ ▸ lt)
  rwa [copyMap_pass, copyMap_fail] at moved

theorem withCopy_ops_of_lt {op : Nat} (lt : op < p.ops.size) : (p.withCopy f).ops[op]? = p.ops[op]? :=
  Array.getElem?_append_left lt

theorem withCopy_ops_of_le {op : Nat} (le : p.ops.size ≤ op) :
    (p.withCopy f).ops[op]? = (p.copy f).ops[op - p.ops.size]? := by
  rw [withCopy, Array.getElem?_append_right le, List.getElem?_toArray]

theorem withCopy_extends (p : Program) (f : Fragment) : (p.withCopy f).Extends p where
  ops op o held := by
    rw [withCopy_ops_of_lt (Array.getElem?_eq_some_iff.1 held).1]
    exact held
  entries := rfl
  rules := rfl
  terminals := rfl
  library := rfl

/-- The copy holds the fragment. -/
theorem withCopy_holds (p : Program) (f : Fragment) :
    Holds (p.withCopy f).ops p.ops.size (p.copy f).ops := by
  intro i o found
  rwa [withCopy_ops_of_le (Nat.le_add_right _ _), Nat.add_sub_cancel_left]

/-- What the ops of a copy are: they match, and name no place of the program. -/
theorem withCopy_copied (movable : f.Movable) (inner : f.Inner) {op : Nat} {o : Op}
    (le : p.ops.size ≤ op) (held : (p.withCopy f).ops[op]? = some o) :
    op < p.ops.size + f.size ∧ o.Inner ∧ ∀ t ∈ o.targets, p.ops.size ≤ t := by
  rw [withCopy_ops_of_le le] at held
  have member := List.mem_of_getElem? held
  have lt := (List.getElem?_eq_some_iff.1 held).1
  rw [copy, movable.length_eq] at lt
  refine ⟨by omega, inner _ _ _ o member, fun t named => ?_⟩
  rcases (movable.targets _ _ _).1 o member t named with here | rfl | rfl
  · exact here.1
  · omega
  · omega

/-- The ops of the program with the copy are those of the program, at other places. -/
theorem withCopy_moved (closed : p.Closed) (movable : f.Movable) {base pass fail : Nat}
    (held : Holds p.ops base (f base pass fail).ops) :
    (p.withCopy f).Moved (p.copyMap f base pass fail) p where
  ops op o found := by
    by_cases lt : op < p.ops.size
    · rw [withCopy_ops_of_lt lt] at found
      rw [copyMap_of_lt lt, found, Op.relocate_eq_self_iff.2]
      intro t named
      exact copyMap_of_lt (closed.targets op o found t named)
    · have le := Nat.le_of_not_lt lt
      rw [withCopy_ops_of_le le] at found
      have inside := (List.getElem?_eq_some_iff.1 found).1
      rw [copy, movable.length_eq] at inside
      have there := held (op - p.ops.size) (o.relocate (p.copyMap f base pass fail)) (by
        rw [copy_relocate movable base pass fail, Code.relocate, List.getElem?_map, found, Option.map_some])
      have place : p.copyMap f base pass fail (p.ops.size + (op - p.ops.size)) =
          base + (op - p.ops.size) := copyMap_copy base pass fail inside
      rw [Nat.add_sub_cancel' le] at place
      rw [place]
      exact there
  entries := rfl
  fixed ruleset entry found := copyMap_of_lt (closed.entries ruleset entry found).1
  rules := rfl
  terminals := rfl
  library := rfl

end Program

/-! ## Runs through the copy -/

namespace Machine

/-- A run that began in the copy, while the calls `outer` were under way, is in the copy, or in
a call made from there. -/
def InCopy (N : Nat) (outer : List (Nat × Nat)) (op : Nat) (s : State) : Prop :=
  (s.exits = outer ∧ N ≤ op) ∨
    ∃ deeper x, s.exits = deeper ++ x :: outer ∧ op < N ∧ (∀ e ∈ deeper, e.1 < N ∧ e.2 < N) ∧
      N ≤ x.1 ∧ N ≤ x.2

variable {p : Program} {f : Fragment} {b : Buffer} {outer : List (Nat × Nat)} {op op' : Nat} {s s' : State}

theorem InCopy.next (closed : p.Closed) (movable : f.Movable) (inner : f.Inner)
    (h : InCopy p.ops.size outer op s) (taken : step (p.withCopy f) b op s = .next op' s') :
    InCopy p.ops.size outer op' s' := by
  have goes := step_goes (p.withCopy f) b op s
  rw [taken] at goes
  rcases h with ⟨here, le⟩ | ⟨deeper, x, calls, lt, before, first, second⟩
  · -- in the copy: it names its own places, and leaves no call
    cases goes with
    | onward held target same =>
        exact Or.inl ⟨same.trans here, (Program.withCopy_copied movable inner le held).2.2 _ target⟩
    | @begins ruleset pass fail _ _ held found more =>
        have targets := (Program.withCopy_copied movable inner le held).2.2
        refine Or.inr ⟨[], (pass, fail), by rw [more, here]; rfl, (closed.entries _ _ found).1, ?_, ?_, ?_⟩
        · intro e member
          cases member
        · exact targets pass (by simp [Op.targets])
        · exact targets fail (by simp [Op.targets])
    | again held found open_ same => exact (Program.withCopy_copied movable inner le held).2.1.elim
    | leaves held newest exit left =>
        rcases held with held | held
        · exact (Program.withCopy_copied movable inner le held).2.1.elim
        · exact (Program.withCopy_copied movable inner le held).2.1.elim
  · -- in a call: the program names its own places, and the call that is left first is the newest
    rw [InCopy]
    cases goes with
    | onward held target same =>
        rw [Program.withCopy_ops_of_lt lt] at held
        exact Or.inr ⟨deeper, x, same.trans calls, closed.targets op _ held _ target, before, first, second⟩
    | @begins ruleset pass fail _ _ held found more =>
        rw [Program.withCopy_ops_of_lt lt] at held
        refine Or.inr ⟨(pass, fail) :: deeper, x, by rw [more, calls]; rfl, (closed.entries _ _ found).1,
          ?_, first, second⟩
        intro e member
        rcases List.mem_cons.1 member with rfl | older
        · exact ⟨closed.targets op _ held pass (by simp [Op.targets]),
            closed.targets op _ held fail (by simp [Op.targets])⟩
        · exact before e older
    | again held found open_ same =>
        exact Or.inr ⟨deeper, x, same.trans calls, (closed.entries _ _ found).1, before, first, second⟩
    | @leaves pass fail _ rest _ held newest exit left =>
        rw [calls] at newest
        cases deeper with
        | nil =>
            obtain ⟨rfl, rfl⟩ := List.cons.inj newest
            refine Or.inl ⟨left, ?_⟩
            rcases exit with rfl | rfl
            · exact first
            · exact second
        | cons d ds =>
            obtain ⟨rfl, rfl⟩ := List.cons.inj newest
            have newer := before (pass, fail) List.mem_cons_self
            refine Or.inr ⟨ds, x, left, ?_, fun e member => before e (List.mem_cons_of_mem _ member),
              first, second⟩
            rcases exit with rfl | rfl
            · exact newer.1
            · exact newer.2

/-- A run of the ops that are `inside`, and of the calls made from there, up to where it leaves
them; `depth` calls are under way outside. When it waits, text may come before it goes on. -/
inductive Leaves (p : Program) (inside : Nat → Prop) (depth : Nat) :
    Buffer → Nat → State → Buffer → Nat → State → Prop
  | out {b : Buffer} {op : Nat} {s : State} (shallow : s.frames.length ≤ depth) (outside : ¬ inside op) :
      Leaves p inside depth b op s b op s
  | on {b b' : Buffer} {op op' o : Nat} {s s' t : State} (inner : depth < s.frames.length ∨ inside op)
      (taken : step p b op s = .next op' s') (rest : Leaves p inside depth b op' s' b' o t) :
      Leaves p inside depth b op s b' o t
  | waits {b b' b'' : Buffer} {op op' o : Nat} {s s' t : State} {pieces : List String} {ended : Bool}
      (inner : depth < s.frames.length ∨ inside op) (halt : step p b op s = .halt s')
      (pending : s'.pending = some op') (fed : b.fill pieces ended = .ok b')
      (fits : b'.length ≤ Buffer.maxOffset) (rest : Leaves p inside depth b' op' s'.resumed b'' o t) :
      Leaves p inside depth b op s b'' o t

variable {T : String} {n depth base pass fail o : Nat} {b' : Buffer} {t : State}

/-- An op in range is one of the program. -/
theorem InRange.held (range : InRange p T op s) : ∃ o, p.ops[op]? = some o := by
  rw [InRange] at range
  cases held : p.ops[op]? with
  | none =>
      rw [held] at range
      exact range.elim
  | some o => exact ⟨o, rfl⟩

/-- Where a run through the copy may go on, the run through the fragment has not left it. -/
theorem InCopy.inner (movable : f.Movable) (inner : f.Inner) (h : InCopy p.ops.size outer op s) {o : Op}
    (held : (p.withCopy f).ops[op]? = some o) :
    outer.length < s.frames.length ∨ Among base f.size (p.copyMap f base pass fail op) := by
  have open_ : s.frames.length = s.exits.length := by rw [State.exits, List.length_map]
  rcases h with ⟨-, le⟩ | ⟨deeper, x, calls, -⟩
  · have lt := (Program.withCopy_copied movable inner le held).1
    have place : p.copyMap f base pass fail (p.ops.size + (op - p.ops.size)) = base + (op - p.ops.size) :=
      Program.copyMap_copy base pass fail (by omega)
    rw [Nat.add_sub_cancel' le] at place
    rw [place]
    exact Or.inr ⟨by omega, by omega⟩
  · refine Or.inl ?_
    rw [open_, calls, List.length_append, List.length_cons]
    omega

/-- A run through the fragment goes along every path through the copy. -/
theorem Leaves.along (closed : p.Closed) (movable : f.Movable) (inner : f.Inner)
    (held : Holds p.ops base (f base pass fail).ops) (path : Reaches (p.withCopy f) T op s op' s')
    (inCopy : InCopy p.ops.size outer op s)
    (leaves : Leaves p (Among base f.size) outer.length (Buffer.complete T)
      (p.copyMap f base pass fail op) (s.relocate (p.copyMap f base pass fail)) b' o t) :
    InCopy p.ops.size outer op' s' ∧
      Leaves p (Among base f.size) outer.length (Buffer.complete T)
        (p.copyMap f base pass fail op') (s'.relocate (p.copyMap f base pass fail)) b' o t := by
  induction path with
  | here => exact ⟨inCopy, leaves⟩
  | @onward op op₁ _ s s₁ _ range taken _ ih =>
      obtain ⟨o₁, found⟩ := range.held
      have moved := step_relocate (Program.withCopy_moved closed movable held) (Buffer.complete T) s found
      rw [taken] at moved
      have frames : (s.relocate (p.copyMap f base pass fail)).frames.length = s.frames.length := by
        rw [State.relocate, List.length_map]
      cases leaves with
      | out shallow outside =>
          rcases inCopy.inner movable inner found with deeper | inside
          · omega
          · exact absurd inside outside
      | on _ there rest =>
          cases moved.symm.trans there
          exact ih (inCopy.next closed movable inner taken) rest
      | waits _ halt => cases moved.symm.trans halt

/-- A state whose calls go on outside the copy is at the same places in the program. -/
theorem relocate_copyMap (exits : ∀ e ∈ s.exits, e.1 < p.ops.size ∧ e.2 < p.ops.size)
    (pending : s.pending = none) : s.relocate (p.copyMap f base pass fail) = s := by
  have frames : s.frames.map (Frame.relocate (p.copyMap f base pass fail)) = s.frames := by
    refine (List.map_congr_left fun g member => ?_).trans (List.map_id _)
    have first : g.pass < p.ops.size := (exits g.exits (List.mem_map_of_mem member)).1
    have second : g.fail < p.ops.size := (exits g.exits (List.mem_map_of_mem member)).2
    simp only [Frame.relocate, Program.copyMap_of_lt first, Program.copyMap_of_lt second, id]
  simp only [State.relocate, frames, pending, Option.map_none]
  rw [← pending]

theorem Reaches.pending (path : Reaches p T op s op' s') : s'.pending = s.pending := by
  induction path with
  | here => rfl
  | onward _ taken _ ih => exact ih.trans ((step_within p _ _ _).running _ _ taken).1

/-- The copy is entered in itself. -/
theorem size_le_copy_entry (movable : f.Movable) : p.ops.size ≤ (p.copy f).entry := by
  rcases (movable.targets p.ops.size (p.ops.size + f.size) (p.ops.size + f.size + 1)).2 with
    here | there | there
  · exact here.1
  · rw [Program.copy, there]
    omega
  · rw [Program.copy, there]
    omega

/-- Outside, a run has left, and it ends there. -/
theorem Leaves.ended {inside : Nat → Prop} {depth : Nat} (leaves : Leaves p inside depth b op s b' o t)
    (shallow : s.frames.length ≤ depth) (outside : ¬ inside op) : o = op ∧ t = s := by
  have left : ¬ (depth < s.frames.length ∨ inside op) := not_or_intro (Nat.not_lt.2 shallow) outside
  cases leaves with
  | out => exact ⟨rfl, rfl⟩
  | on inner => exact absurd inner left
  | waits inner => exact absurd inner left

/-- At an exit of the copy the fragment is left, in the state in which the copy is. -/
theorem InCopy.left (inCopy : InCopy p.ops.size outer op s) (le : p.ops.size ≤ op)
    (exits : ∀ e ∈ outer, e.1 < p.ops.size ∧ e.2 < p.ops.size) (pending : s.pending = none)
    (outside : ¬ Among base f.size (p.copyMap f base pass fail op))
    (leaves : Leaves p (Among base f.size) outer.length b (p.copyMap f base pass fail op)
      (s.relocate (p.copyMap f base pass fail)) b' o t) :
    o = p.copyMap f base pass fail op ∧ t = s := by
  rcases inCopy with ⟨here, -⟩ | ⟨_, _, _, lt, _⟩
  · have same : s.relocate (p.copyMap f base pass fail) = s := relocate_copyMap (here ▸ exits) pending
    have shallow : s.frames.length = outer.length := by rw [← here, State.exits, List.length_map]
    rw [same] at leaves
    exact leaves.ended (Nat.le_of_eq shallow) outside
  · omega

/-- A run of the fragment does not come to an end at a fault of the copy. -/
theorem InCopy.no_fault (closed : p.Closed) (movable : f.Movable) (inner : f.Inner)
    (held : Holds p.ops base (f base pass fail).ops) (inCopy : InCopy p.ops.size outer op s)
    (range : InRange (p.withCopy f) T op s) {fault : Fault}
    (faulted : step (p.withCopy f) (Buffer.complete T) op s = .fault fault s')
    (leaves : Leaves p (Among base f.size) outer.length (Buffer.complete T)
      (p.copyMap f base pass fail op) (s.relocate (p.copyMap f base pass fail)) b' o t) : False := by
  obtain ⟨o₁, found⟩ := range.held
  have moved := step_relocate (Program.withCopy_moved closed movable held) (Buffer.complete T) s found
  rw [faulted] at moved
  cases leaves with
  | out shallow outside =>
      rw [State.relocate, List.length_map] at shallow
      rcases inCopy.inner movable inner found with deeper | inside
      · omega
      · exact absurd inside outside
  | on _ there => cases moved.symm.trans there
  | waits _ halt => cases moved.symm.trans halt

/-- A run of a fragment that does what a parse says leaves it at the exit that the outcome
says, in such a state; it does not leave it when the outcome is a fault. -/
theorem Leaves.of_means {α : Type} {won : State → Nat → α → State → Prop} {q : Parse α}
    (closed : p.Closed) (movable : f.Movable) (inner : f.Inner) (held : Holds p.ops base (f base pass fail).ops)
    (passOut : ¬ Among base f.size pass) (failOut : ¬ Among base f.size fail)
    (means : ∀ pass,
      Means (p.withCopy f) T (Ready T n (n * (T.utf8ByteSize + 1))) won Failed pass f q)
    (visited : Visited p T n (f base pass fail).entry s)
    (leaves : Leaves p (Among base f.size) s.frames.length (Buffer.complete T)
      (f base pass fail).entry s b' o t) :
    match q s.calls s.pos with
    | .pass stop v again => o = pass ∧ won (s.noted again) stop v t
    | .fail again => o = fail ∧ Failed (s.noted again) t
    | .error _ => False
    | .deep => False := by
  have exits : ∀ e ∈ s.exits, e.1 < p.ops.size ∧ e.2 < p.ops.size := fun e member =>
    ⟨(visited.exits e member e.1 (Or.inl rfl)).1, (visited.exits e member e.2 (Or.inr rfl)).1⟩
  have entry : p.copyMap f base pass fail (p.copy f).entry = (f base pass fail).entry :=
    (congrArg Code.entry (Program.copy_relocate movable base pass fail)).symm
  have depth : s.frames.length = s.exits.length := by rw [State.exits, List.length_map]
  have along : ∀ {op' : Nat} {s' : State}, Reaches (p.withCopy f) T (p.copy f).entry s op' s' →
      InCopy p.ops.size s.exits op' s' ∧
        Leaves p (Among base f.size) s.exits.length (Buffer.complete T) (p.copyMap f base pass fail op')
          (s'.relocate (p.copyMap f base pass fail)) b' o t := by
    intro op' s' path
    refine Leaves.along closed movable inner held path (Or.inl ⟨rfl, size_le_copy_entry movable⟩) ?_
    rw [entry, relocate_copyMap exits visited.pending, ← depth]
    exact leaves
  have left : ∀ {x e : Nat} {s' : State}, p.ops.size ≤ x → p.copyMap f base pass fail x = e →
      ¬ Among base f.size e → Reaches (p.withCopy f) T (p.copy f).entry s x s' → o = e ∧ t = s' := by
    rintro x _ s' le rfl outside path
    obtain ⟨inCopy, rest⟩ := along path
    exact inCopy.left le exits (path.pending.trans visited.pending) outside rest
  have unharmed : ∀ {op' : Nat} {s' s'' : State} {fault : Fault},
      Reaches (p.withCopy f) T (p.copy f).entry s op' s' → InRange (p.withCopy f) T op' s' →
      step (p.withCopy f) (Buffer.complete T) op' s' ≠ .fault fault s'' := by
    intro op' s' s'' fault path range faulted
    obtain ⟨inCopy, rest⟩ := along path
    exact inCopy.no_fault closed movable inner held range faulted rest
  have run := means _ _ _ (Program.withCopy_holds p f) s visited.ready
  change Ends (p.withCopy f) T won Failed _ _ (p.copy f).entry s s (q s.calls s.pos) at run
  rcases run with ⟨op', s', path, range, uncounted⟩ | run
  · obtain ⟨_, faulted, -⟩ := uncounted.step_eq range (Buffer.complete T)
    exact (unharmed path range faulted).elim
  · cases outcome : q s.calls s.pos with
    | pass stop v again =>
        rw [outcome] at run
        obtain ⟨s', path, done⟩ := run
        obtain ⟨rfl, rfl⟩ := left (by omega) (Program.copyMap_pass base pass fail) passOut path
        exact ⟨rfl, done⟩
    | fail again =>
        rw [outcome] at run
        obtain ⟨s', path, lost⟩ := run
        obtain ⟨rfl, rfl⟩ := left (by omega) (Program.copyMap_fail base pass fail) failOut path
        exact ⟨rfl, lost⟩
    | error fault =>
        rw [outcome] at run
        obtain ⟨op', s', s'', path, range, faulted⟩ := run
        exact unharmed path range faulted
    | deep =>
        rw [outcome] at run
        exact run

end Machine

end PegFlow
