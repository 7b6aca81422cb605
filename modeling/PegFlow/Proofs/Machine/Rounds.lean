/-
# PegFlow.Proofs.Machine.Rounds -- what the rounds of a repetition record

`Token.Rounds` runs a repetition round by round, with the text that comes meanwhile, and keeps
what each round that matched something recorded. So long as it runs, the captures are those
from before it and those of these rounds in order, and each of the rounds records what its body
records when it matches once (`Token.Rounds.recorded`). Rounds that fail or match nothing add
nothing. Wherever a repetition is left, it was run in this way (`Machine.Leaves.rounds`).
-/
import PegFlow.Proofs.Machine.Balanced
import PegFlow.Proofs.Meaning.Tally

namespace PegFlow

set_option autoImplicit false

open Machine

/-- What was recorded after the first so many captures. -/
def State.capturesSince (s : State) (n : Nat) : List Capture := s.captures.toList.drop n

theorem State.capturesSince_of_append {s : State} {n : Nat} {before captures : List Capture}
    (all : s.captures.toList = before ++ captures) (size : before.length = n) : s.capturesSince n = captures := by
  rw [capturesSince, all]
  exact List.drop_left' size

namespace Token

/-- Where the body of a repetition at `base` begins. -/
def bodyAt (t : Token) (base : Nat) : Nat := (t.matcher.fragment (base + 2) (base + 1) base).entry

/-- Where a repetition at `base` begins. -/
def loopAt (t : Token) (base : Nat) : Nat := base + 2 + (t.matcher.fragment (base + 2) (base + 1) base).ops.length

/-- The repetition of a token at `base`, begun in `s`: so far these captures were recorded by rounds
that matched something, one list for each of them, and the run goes on from there. -/
inductive Rounds (p : Program) (t : Token) (base : Nat) (b : Buffer) (s : State) :
    List (List Capture) → Buffer → Nat → State → Prop
  | begins {u : State} (taken : step p b (t.loopAt base) s = .next (t.bodyAt base) u) :
      Rounds p t base b s [] b (t.bodyAt base) u
  /-- A round matches something. -/
  | completed {rounds : List (List Capture)} {b₁ b₂ : Buffer} {u v w : State} {op : Nat}
      (before : Rounds p t base b s rounds b₁ (t.bodyAt base) u)
      (body : Leaves p (Among (base + 2) t.matcher.fragment.size) s.frames.length b₁ (t.bodyAt base) u
        b₂ (base + 1) v)
      (moved : v.pos ≠ u.pos) (taken : step p b₂ (base + 1) v = .next op w) :
      Rounds p t base b s (rounds ++ [v.capturesSince u.captures.size]) b₂ op w
  /-- A round matches nothing. -/
  | still {rounds : List (List Capture)} {b₁ b₂ : Buffer} {u v w : State} {op : Nat}
      (before : Rounds p t base b s rounds b₁ (t.bodyAt base) u)
      (body : Leaves p (Among (base + 2) t.matcher.fragment.size) s.frames.length b₁ (t.bodyAt base) u
        b₂ (base + 1) v)
      (still : v.pos = u.pos) (taken : step p b₂ (base + 1) v = .next op w) :
      Rounds p t base b s rounds b₂ op w
  /-- A round fails. -/
  | failed {rounds : List (List Capture)} {b₁ b₂ : Buffer} {u v w : State} {op : Nat}
      (before : Rounds p t base b s rounds b₁ (t.bodyAt base) u)
      (body : Leaves p (Among (base + 2) t.matcher.fragment.size) s.frames.length b₁ (t.bodyAt base) u
        b₂ base v)
      (taken : step p b₂ base v = .next op w) : Rounds p t base b s rounds b₂ op w

end Token

/-! ## Where a run goes on -/

/-- A run follows the runs over whole texts where it leaves a part, whatever text came meanwhile. -/
theorem Follows.leaves {g : AnnotatedGrammar} {library : Library} (linked : g.Linked) {inside : Nat → Prop}
    {depth op o : Nat} {b b' : Buffer} {P : String} {s t : State}
    (leaves : Leaves (Program.ofGrammar g library) inside depth b op s b' o t)
    (follows : Follows g library b P op s) (idle : s.pending = none) (status : s.status = .running) :
    (∃ P', Follows g library b' P' o t) ∧ t.pending = none ∧ t.status = .running := by
  induction leaves generalizing P with
  | out => exact ⟨⟨P, follows⟩, idle, status⟩
  | @on b b' op op' o s s' t inner taken _ ih =>
      have running := (step_within (Program.ofGrammar g library) b op s).running op' s' taken
      exact ih (follows.step linked taken) (running.1.trans idle) (running.2.trans status)
  | @waits b b' b'' op op' o s s' t pieces ended inner halt pending fed fits _ ih =>
      rcases follows.halted linked halt with ⟨-, rfl⟩ | ⟨-, rfl⟩ | ⟨-, rfl⟩
      · cases pending
        rw [resumed_waitingAt idle status] at ih
        obtain ⟨first, -, there⟩ := follows.fed fed fits
        exact ih there idle status
      · cases idle.symm.trans pending
      · cases idle.symm.trans pending

/-- Where a run has left, it is at its end. -/
theorem Machine.Leaves.eq_of_left {p : Program} {inside : Nat → Prop} {depth op o : Nat} {b b' : Buffer}
    {s t : State} (leaves : Leaves p inside depth b op s b' o t) (shallow : s.frames.length ≤ depth)
    (outside : ¬ inside op) : b' = b ∧ o = op ∧ t = s := by
  have left : ¬ (depth < s.frames.length ∨ inside op) := not_or.2 ⟨Nat.not_lt.2 shallow, outside⟩
  cases leaves with
  | out => exact ⟨rfl, rfl, rfl⟩
  | on inner => exact absurd inner left
  | waits inner => exact absurd inner left

/-- Where a repetition is left its loop is left, and nothing else. -/
theorem State.leaveLoop_next {s w : State} {l : Loop} {rest : List Loop} {least pass fail op : Nat}
    (loops : s.loops = l :: rest) (taken : s.leaveLoop least pass fail = .next op w) :
    (op = pass ∨ op = fail) ∧ w = { s with loops := rest } := by
  rw [State.leaveLoop, loops] at taken
  cases taken
  refine ⟨?_, rfl⟩
  split
  · exact Or.inl rfl
  · exact Or.inr rfl

section

variable {a : AnnotatedGrammar} {library : Library} {t : Token} {base pass fail : Nat}

theorem Token.quantified_fragment (again : t.repeated = true) :
    (Part.quantified t).fragment = t.matcher.fragment.loop (if t.required then 1 else 0) := by
  simp [Part.fragment, Fragment.modified, again]

/-- The ops of a repetition. -/
structure Token.Repeats (p : Program) (t : Token) (base pass fail least : Nat) : Prop where
  exit : p.ops[base]? = some (.loopExit least pass fail)
  next : p.ops[base + 1]? = some (.loopNext (t.bodyAt base) least pass fail)
  enter : p.ops[t.loopAt base]? = some (.loopEnter (t.bodyAt base))
  before : pass < base ∧ fail < base
  behind : base ≤ t.bodyAt base

namespace Token.Repeats

variable {p : Program} {least : Nat}

/-- The ops of the loop itself do not wait. -/
theorem goesOn (ops : t.Repeats p base pass fail least) {op : Nat} (here : op = base + 1 ∨ op = base)
    (b : Buffer) (s s' : State) : step p b op s ≠ .halt s' := fun halt => by
  have goes := step_goes p b op s
  rw [halt] at goes
  obtain rfl | rfl := here
  · cases goes with
    | waits held | accepts held | rejects held => cases held.symm.trans ops.next
  · cases goes with
    | waits held | accepts held | rejects held => cases held.symm.trans ops.exit

end Token.Repeats

theorem Compiled.repeats (linked : a.Linked) (library : Library)
    (compiled : Compiled a (.quantified t) base pass fail) (again : t.repeated = true) :
    t.Repeats (Program.ofGrammar a library) base pass fail (if t.required then 1 else 0) := by
  obtain ⟨held, passBefore, failBefore, -⟩ := compiled.stands library linked.every ⟨a.entry, rfl, linked.entry⟩
  rw [Token.quantified_fragment again] at held
  obtain ⟨exit, next, -, enter⟩ := held.around
  refine ⟨exit, next, enter, ⟨passBefore, failBefore⟩, ?_⟩
  obtain inside | same | same :=
    ((Matcher.fragment_movable t.matcher).targets (base + 2) (base + 1) base).2
  · exact Nat.le_trans (Nat.le_add_right base 2) inside.1
  · exact Nat.le_trans (Nat.le_succ base) same.ge
  · exact same.ge

theorem Token.quantified_entry (again : t.repeated = true) :
    ((Part.quantified t).fragment base pass fail).entry = t.loopAt base := by
  rw [Token.quantified_fragment again]
  rfl

/-- A round of a repetition begun in `s` begins in `u` after these rounds. -/
structure RoundStart (a : AnnotatedGrammar) (library : Library) (op : Nat) (s : State)
    (rounds : List (List Capture)) (b : Buffer) (u : State) : Prop where
  follows : ∃ P, Follows a library b P op u
  idle : u.pending = none
  status : u.status = .running
  depth : u.frames.length = s.frames.length
  loops : u.loops = ⟨rounds.length, u.pos, u.captures.size⟩ :: s.loops

/-- The body of a round that began in `u` is left at `o` in `v`: it matched, or it failed and recorded
nothing. -/
structure RoundEnd (a : AnnotatedGrammar) (library : Library) (t : Token) (base : Nat) (s : State)
    (rounds : List (List Capture)) (u : State) (b : Buffer) (o : Nat) (v : State) : Prop where
  follows : ∃ P, Follows a library b P o v
  idle : v.pending = none
  status : v.status = .running
  depth : v.frames.length = s.frames.length
  loops : v.loops = ⟨rounds.length, u.pos, u.captures.size⟩ :: s.loops
  captures : v.captures.toList = u.captures.toList ++ v.capturesSince u.captures.size
  exit : (o = base + 1 ∧
      Tally (t.matcher.sites false false) ((v.capturesSince u.captures.size).map Capture.slot)) ∨
    (o = base ∧ v.captures.toList = u.captures.toList)

theorem RoundStart.ends (linked : a.Linked) (compiled : Compiled a (.quantified t) base pass fail)
    (again : t.repeated = true) (ordered : t.matcher.Ordered) {s u v : State} {rounds : List (List Capture)}
    {b b' : Buffer} {o : Nat} (start : RoundStart a library (t.bodyAt base) s rounds b u)
    (body : Leaves (Program.ofGrammar a library) (Among (base + 2) t.matcher.fragment.size) s.frames.length b
      (t.bodyAt base) u b' o v) : RoundEnd a library t base s rounds u b' o v := by
  obtain ⟨⟨P, follows⟩, idle, status, depth, loops⟩ := start
  obtain ⟨there, idle', status'⟩ := Follows.leaves linked body follows idle status
  have same (open_ : SameOpen u v) : v.frames.length = s.frames.length := by
    rw [← depth, ← List.length_map (f := Frame.plain), open_.frames, List.length_map]
  rw [← depth] at body
  obtain ⟨T, call, passes | fails⟩ := (compiled.repeated again).leaves_parse linked trivial follows idle status body
  · obtain ⟨stop, captures, more, outcome, rfl, passed⟩ := passes
    have since : v.capturesSince u.captures.size = captures :=
      State.capturesSince_of_append passed.captures Array.length_toList
    obtain ⟨next, around, numbered, even⟩ := ordered
    refine ⟨there, idle', status', same passed.kept.sameOpen, passed.kept.loops.trans loops, ?_,
      Or.inl ⟨rfl, ?_⟩⟩
    · rw [since]
      exact passed.captures
    · rw [since]
      exact Matcher.parse_tally false false numbered even u.calls u.pos stop captures more outcome
  · obtain ⟨more, -, rfl, failed⟩ := fails
    have held : v.captures.toList = u.captures.toList := failed.captures
    have since : v.capturesSince u.captures.size = [] :=
      State.capturesSince_of_append (held.trans (List.append_nil _).symm) Array.length_toList
    refine ⟨there, idle', status', same failed.kept.sameOpen, failed.kept.loops.trans loops, ?_,
      Or.inr ⟨rfl, held⟩⟩
    rw [since, List.append_nil, held]

/-! ## Round by round -/

/-- What the loop does with a round that matched. -/
theorem RoundEnd.next {s u v w : State} {rounds : List (List Capture)} {b : Buffer} {least op : Nat}
    (linked : a.Linked) (ops : t.Repeats (Program.ofGrammar a library) base pass fail least)
    (ended : RoundEnd a library t base s rounds u b (base + 1) v)
    (taken : step (Program.ofGrammar a library) b (base + 1) v = .next op w) :
    (v.pos ≠ u.pos → op = t.bodyAt base ∧ w.captures = v.captures ∧
      RoundStart a library op s (rounds ++ [v.capturesSince u.captures.size]) b w) ∧
    (v.pos = u.pos →
      (op = pass ∨ op = fail) ∧ w.frames = v.frames ∧ w.captures.toList = u.captures.toList) := by
  obtain ⟨⟨P, follows⟩, idle, status, depth, loops, captures, -⟩ := ended
  have there := follows.step linked taken
  have turn : v.nextRound (t.bodyAt base) least pass fail = .next op w := by
    rw [← taken]
    simp only [step, ops.next]
  rw [State.nextRound, loops] at turn
  constructor
  · intro moved
    simp only [if_neg moved] at turn
    cases turn
    exact ⟨rfl, rfl, ⟨P, there⟩, idle, status, depth, by simp⟩
  · intro still
    simp only [if_pos still] at turn
    obtain ⟨exits, rfl⟩ := State.leaveLoop_next (s := v.keepCaptures u.captures.size) loops turn
    exact ⟨exits, rfl, State.captures_keepCaptures ⟨_, captures.symm⟩⟩

/-- What the loop does when a round failed. -/
theorem RoundEnd.leave {s u v w : State} {rounds : List (List Capture)} {b : Buffer} {least op : Nat}
    (ops : t.Repeats (Program.ofGrammar a library) base pass fail least)
    (ended : RoundEnd a library t base s rounds u b base v)
    (taken : step (Program.ofGrammar a library) b base v = .next op w) :
    (op = pass ∨ op = fail) ∧ w.frames = v.frames ∧ w.captures.toList = u.captures.toList := by
  have turn : v.leaveLoop least pass fail = .next op w := by
    rw [← taken]
    simp only [step, ops.exit]
  obtain ⟨exits, rfl⟩ := State.leaveLoop_next ended.loops turn
  refine ⟨exits, rfl, ?_⟩
  obtain ⟨same, -⟩ | ⟨-, held⟩ := ended.exit
  · omega
  · exact held

/-- So long as a repetition runs, the captures are those from before it and those of the rounds that
matched something, each of which records what its body does when it matches once. -/
theorem Token.Rounds.recorded (linked : a.Linked) (compiled : Compiled a (.quantified t) base pass fail)
    (again : t.repeated = true) (ordered : t.matcher.Ordered) {b b' : Buffer} {P : String} {s u : State}
    {rounds : List (List Capture)} {op : Nat} (follows : Follows a library b P (t.loopAt base) s)
    (idle : s.pending = none) (status : s.status = .running)
    (run : t.Rounds (Program.ofGrammar a library) base b s rounds b' op u) :
    u.captures.toList = s.captures.toList ++ rounds.flatten ∧
      (∀ round ∈ rounds, Tally (t.matcher.sites false false) (round.map Capture.slot)) ∧
      (op = t.bodyAt base → RoundStart a library op s rounds b' u) := by
  have ops := compiled.repeats linked library again
  have outside {op : Nat} (exits : op = pass ∨ op = fail) : op ≠ t.bodyAt base := by
    have := ops.before
    have := ops.behind
    omega
  induction run with
  | begins taken =>
      have there := follows.step linked taken
      simp only [step, ops.enter] at taken
      cases taken
      exact ⟨(List.append_nil _).symm, List.forall_mem_nil _, fun _ => ⟨⟨P, there⟩, idle, status, rfl, rfl⟩⟩
  | @completed rounds b₁ b₂ u v w op _ body moved taken ih =>
      obtain ⟨captures, tallies, start⟩ := ih
      have ended := (start rfl).ends linked compiled again ordered body
      obtain ⟨rfl, held, next⟩ := (ended.next linked ops taken).1 moved
      refine ⟨?_, ?_, fun _ => next⟩
      · rw [held, ended.captures, captures, List.flatten_append, List.append_assoc, List.flatten_singleton]
      · obtain ⟨-, tally⟩ | ⟨same, -⟩ := ended.exit
        · rw [List.forall_mem_append, List.forall_mem_singleton]
          exact ⟨tallies, tally⟩
        · omega
  | @still rounds b₁ b₂ u v w op _ body still taken ih =>
      obtain ⟨captures, tallies, start⟩ := ih
      have ended := (start rfl).ends linked compiled again ordered body
      obtain ⟨exits, -, held⟩ := (ended.next linked ops taken).2 still
      exact ⟨held.trans captures, tallies, fun same => absurd same (outside exits)⟩
  | @failed rounds b₁ b₂ u v w op _ body taken ih =>
      obtain ⟨captures, tallies, start⟩ := ih
      obtain ⟨exits, -, held⟩ := ((start rfl).ends linked compiled again ordered body).leave ops taken
      exact ⟨held.trans captures, tallies, fun same => absurd same (outside exits)⟩

theorem Token.quantified_size (again : t.repeated = true) :
    (Part.quantified t).fragment.size = t.matcher.fragment.size + 3 := by
  rw [Fragment.size, Token.quantified_fragment again]
  simp only [Fragment.loop, List.length_append, List.length_cons, List.length_nil,
    (Matcher.fragment_movable t.matcher).length_eq]

/-- A run that is in the body of a round leaves the body, and then the loop goes on or is left. By
induction on the run: `cont` says that what is still to run of the body is of this round. -/
theorem Machine.Leaves.rounds_of_round (linked : a.Linked) (compiled : Compiled a (.quantified t) base pass fail)
    (again : t.repeated = true) (ordered : t.matcher.Ordered) {b c c' : Buffer} {P : String} {s x y : State}
    {op o : Nat} (follows : Follows a library b P (t.loopAt base) s) (idle : s.pending = none)
    (status : s.status = .running)
    (leaves : Leaves (Program.ofGrammar a library) (Among base (Part.quantified t).fragment.size) s.frames.length
      c op x c' o y)
    {rounds : List (List Capture)} {b₁ : Buffer} {u : State}
    (run : t.Rounds (Program.ofGrammar a library) base b s rounds b₁ (t.bodyAt base) u)
    (cont : ∀ {d : Buffer} {e : Nat} {v : State},
      Leaves (Program.ofGrammar a library) (Among (base + 2) t.matcher.fragment.size) s.frames.length c op x d e v →
        Leaves (Program.ofGrammar a library) (Among (base + 2) t.matcher.fragment.size) s.frames.length
          b₁ (t.bodyAt base) u d e v) :
    ∃ rounds, t.Rounds (Program.ofGrammar a library) base b s rounds c' o y := by
  have ops := compiled.repeats linked library again
  have size := Token.quantified_size again
  have ends {rounds : List (List Capture)} {b₁ d : Buffer} {u v : State} {e : Nat}
      (run : t.Rounds (Program.ofGrammar a library) base b s rounds b₁ (t.bodyAt base) u)
      (body : Leaves (Program.ofGrammar a library) (Among (base + 2) t.matcher.fragment.size) s.frames.length
        b₁ (t.bodyAt base) u d e v) : RoundEnd a library t base s rounds u d e v :=
    ((run.recorded linked compiled again ordered follows idle status).2.2 rfl).ends linked compiled again ordered
      body
  have exited {op : Nat} (exits : op = pass ∨ op = fail) : ¬ Among base (Part.quantified t).fragment.size op := by
    have := ops.before
    rw [Among]
    omega
  induction leaves generalizing rounds b₁ u with
  | @out c op x shallow outside =>
      rw [Among, size] at outside
      have notBody : ¬ Among (base + 2) t.matcher.fragment.size op := by
        rw [Among]
        omega
      have ended := ends run (cont (.out shallow notBody))
      obtain ⟨same, -⟩ | ⟨same, -⟩ := ended.exit <;> omega
  | @on c c' op op' o x x' y inner taken rest ih =>
      by_cases inBody : s.frames.length < x.frames.length ∨ Among (base + 2) t.matcher.fragment.size op
      · exact ih run fun later => cont (.on inBody taken later)
      · rw [not_or] at inBody
        have body := cont (.out (Nat.le_of_not_lt inBody.1) inBody.2)
        have ended := ends run body
        obtain ⟨rfl, -⟩ | ⟨rfl, -⟩ := ended.exit
        · obtain ⟨moves, stays⟩ := ended.next linked ops taken
          by_cases still : x.pos = u.pos
          · obtain ⟨exits, frames, -⟩ := stays still
            obtain ⟨rfl, rfl, rfl⟩ := rest.eq_of_left (frames ▸ ended.depth.le) (exited exits)
            exact ⟨rounds, .still run body still taken⟩
          · obtain ⟨rfl, -, -⟩ := moves still
            exact ih (.completed run body still taken) id
        · obtain ⟨exits, frames, -⟩ := ended.leave ops taken
          obtain ⟨rfl, rfl, rfl⟩ := rest.eq_of_left (frames ▸ ended.depth.le) (exited exits)
          exact ⟨rounds, .failed run body taken⟩
  | @waits c c' c'' op op' o x x' y pieces ended inner halt pending fed fits rest ih =>
      by_cases inBody : s.frames.length < x.frames.length ∨ Among (base + 2) t.matcher.fragment.size op
      · exact ih run fun later => cont (.waits inBody halt pending fed fits later)
      · rw [not_or] at inBody
        have ended := ends run (cont (.out (Nat.le_of_not_lt inBody.1) inBody.2))
        exact absurd halt (ops.goesOn (ended.exit.imp And.left And.left) c x x')

/-- Wherever a repetition is left, it was run round by round. -/
theorem Machine.Leaves.rounds (linked : a.Linked) (compiled : Compiled a (.quantified t) base pass fail)
    (again : t.repeated = true) (ordered : t.matcher.Ordered) {b c : Buffer} {P : String} {s y : State}
    {o : Nat} (follows : Follows a library b P (t.loopAt base) s) (idle : s.pending = none)
    (status : s.status = .running)
    (leaves : Leaves (Program.ofGrammar a library) (Among base (Part.quantified t).fragment.size) s.frames.length
      b (t.loopAt base) s c o y) :
    ∃ rounds, t.Rounds (Program.ofGrammar a library) base b s rounds c o y := by
  have ops := compiled.repeats linked library again
  have begun : step (Program.ofGrammar a library) b (t.loopAt base) s = .next (t.bodyAt base) (s.looping 0) := by
    simp only [step, ops.enter]
    rfl
  cases leaves with
  | out _ outside =>
      rw [Among, Token.quantified_size again, Token.loopAt, (Matcher.fragment_movable t.matcher).length_eq] at outside
      omega
  | on _ taken rest =>
      cases begun.symm.trans taken
      exact rest.rounds_of_round linked compiled again ordered follows idle status (.begins begun) id
  | waits _ halt => cases begun.symm.trans halt

end

end PegFlow
