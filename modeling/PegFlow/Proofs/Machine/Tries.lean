/-
# PegFlow.Proofs.Machine.Tries -- what was recorded since a rule was tried

Each call under way tries its ruleset from the entry on, once or, when it is left recursive, again
and again. In every state of a run over a whole text, each of these calls has a state in which its
last try began, from where the run stayed within the call (`Machine.Reaches.tried`). So at the op
that works out the output of a rule, the captures since the call began are those of one match of the
patterns of the rule (`Machine.Reaches.captures_at_output`).
-/
import PegFlow.Proofs.Machine.Balanced
import PegFlow.Proofs.Program.Places

namespace PegFlow

set_option autoImplicit false

open Machine

namespace Machine

variable {p : Program} {T : String} {n depth op₀ op op' op'' : Nat} {s₀ s s' s'' : State}

/-! ## Paths within a call -/

/-- A path over the whole text that does not leave the call that has so many under way with it: no op
is run for this call that leaves its ruleset. -/
inductive Stays (p : Program) (T : String) (depth : Nat) : Nat → State → Nat → State → Prop
  | here (op : Nat) (s : State) : Stays p T depth op s op s
  | onward {op op' op'' : Nat} {s s' s'' : State} (inner : depth < s.frames.length ∨ Program.retFailAt < op)
      (range : InRange p T op s) (taken : step p (Buffer.complete T) op s = .next op' s')
      (rest : Stays p T depth op' s' op'' s'') : Stays p T depth op s op'' s''

theorem Stays.then_ (path : Stays p T depth op s op' s')
    (inner : depth < s'.frames.length ∨ Program.retFailAt < op') (range : InRange p T op' s')
    (taken : step p (Buffer.complete T) op' s' = .next op'' s'') : Stays p T depth op s op'' s'' := by
  induction path with
  | here op s => exact .onward inner range taken (.here _ _)
  | onward inner' range' taken' _ ih => exact .onward inner' range' taken' (ih inner range taken)

/-- A path that comes to somewhere outside of what is inside leaves it on the way. -/
theorem Stays.splits {inside : Nat → Prop} (path : Stays p T depth op s op' s') (shallow : s'.frames.length ≤ depth)
    (outside : ¬ inside op') :
    ∃ o t, Leaves p inside depth (Buffer.complete T) op s (Buffer.complete T) o t ∧ Reaches p T op s o t ∧
      Stays p T depth o t op' s' := by
  induction path with
  | here op s => exact ⟨op, s, .out shallow outside, .here op s, .here op s⟩
  | @onward op op' op'' s s' s'' inner range taken path ih =>
      by_cases in_ : depth < s.frames.length ∨ inside op
      · obtain ⟨o, t, leaves, before, after⟩ := ih shallow outside
        exact ⟨o, t, .on in_ taken leaves, .onward range taken before, after⟩
      · rw [not_or] at in_
        exact ⟨op, s, .out (Nat.le_of_not_lt in_.1) in_.2, .here op s, .onward inner range taken path⟩

/-! ## The last try of each call -/

/-- The run from the start comes to where the ruleset called last begins to be tried. -/
structure TryAt (p : Program) (T : String) (op₀ : Nat) (s₀ : State) (op : Nat) (s : State) : Prop where
  path : Reaches p T op₀ s₀ op s
  call : ∃ f rest, s.frames = f :: rest ∧ p.entries[f.ruleset]? = some op ∧ f.captureBase = s.captures.size

/-- The run is, for each of the calls under way, within the last try of its ruleset. -/
structure Tried (p : Program) (T : String) (op₀ : Nat) (s₀ : State) (op : Nat) (s : State) : Prop where
  based : op = Program.retAt → ∀ f ∈ s.frames.head?, f.captureBase ≤ s.captures.size
  tries : ∀ depth, 0 < depth → depth ≤ s.frames.length → ∃ entry e, TryAt p T op₀ s₀ entry e ∧
    e.frames.length = depth ∧ Stays p T depth entry e op s

/-- An output leaves the calls as they are, and the captures from before the newest. -/
theorem giveOutput_next {rule next : Nat} (held : p.ops[op]? = some (.output rule next))
    (range : InRange p T op s) {b : Buffer} (taken : step p b op s = .next op' s') :
    op' = next ∧ s'.frames = s.frames ∧ ∃ f rest, s.frames = f :: rest ∧ s'.captures.size = f.captureBase := by
  rw [InRange, held] at range
  obtain ⟨-, f, rest, frames, base, -⟩ := range
  simp only [step, held, State.giveOutput, frames] at taken
  split at taken
  · cases taken
  · split at taken
    · cases taken
    · split at taken
      · cases taken
        refine ⟨rfl, frames.symm ▸ rfl, f, rest, frames, ?_⟩
        simp [State.keepCaptures, base]
      · cases taken

/-- A new call has the captures so far below it. -/
theorem call_begins {ruleset pass fail : Nat} (held : p.ops[op]? = some (.call ruleset pass fail)) {b : Buffer}
    (taken : step p b op s = .next op' s') (deeper : s.frames.length < s'.frames.length) :
    ∃ f rest, s'.frames = f :: rest ∧ p.entries[f.ruleset]? = some op' ∧ f.captureBase = s'.captures.size := by
  simp only [step, held, State.call] at taken
  split at taken
  · have same : s'.frames = Frame.noteRecursion ruleset s.pos s.frames := by
      split at taken <;> cases taken <;> rfl
    have keys := congrArg List.length (Frame.keys_noteRecursion ruleset s.pos s.frames)
    rw [List.length_map, List.length_map, ← same] at keys
    exact absurd deeper (Nat.not_lt.2 keys.le)
  · split at taken
    · cases taken
    · rename_i found
      cases taken
      exact ⟨_, _, rfl, found, rfl⟩

/-- A call that is tried again has the same captures below it. -/
theorem leave_again (held : p.ops[op]? = some .ret) {b : Buffer}
    (based : ∀ f ∈ s.frames.head?, f.captureBase ≤ s.captures.size) (taken : step p b op s = .next op' s')
    (level : s'.frames.length = s.frames.length) :
    ∃ f rest, s'.frames = f :: rest ∧ p.entries[f.ruleset]? = some op' ∧ f.captureBase = s'.captures.size := by
  simp only [step, held] at taken
  have leaving := State.leave_leaving p s
  rw [taken] at leaving
  cases leaving with
  | result frames | earlier frames =>
      rw [frames] at level
      exact absurd level (Nat.ne_of_lt (Nat.lt_succ_self _))
  | @again f rest _ frames _ _ found =>
      rw [frames] at based
      have le := based f rfl
      refine ⟨_, _, rfl, found, ?_⟩
      simp [State.retrying, State.keepCaptures, le]

/-- The first two ops leave a ruleset, all others are behind them. -/
theorem behind_retFailAt {o : Op} (ret : p.ops[Program.retAt]? = some .ret)
    (retFail : p.ops[Program.retFailAt]? = some .retFail) (held : p.ops[op]? = some o) (stays : o ≠ .ret)
    (stays' : o ≠ .retFail) : Program.retFailAt < op := by
  match op, held with
  | 0, held => exact absurd (Option.some.inj (held.symm.trans ret)) stays
  | 1, held => exact absurd (Option.some.inj (held.symm.trans retFail)) stays'
  | op + 2, _ => exact Nat.lt_add_left op Nat.one_lt_two

theorem Tried.next (closed : p.Closed) (ret : p.ops[Program.retAt]? = some .ret)
    (retFail : p.ops[Program.retFailAt]? = some .retFail) (visited : Visited p T n op s)
    (path : Reaches p T op₀ s₀ op s) (tried : Tried p T op₀ s₀ op s) (range : InRange p T op s)
    (taken : step p (Buffer.complete T) op s = .next op' s') : Tried p T op₀ s₀ op' s' := by
  have length (s : State) : s.frames.length = s.exits.length := by rw [State.exits, List.length_map]
  have older {depth : Nat} (positive : 0 < depth) (le : depth ≤ s.frames.length)
      (inner : depth < s.frames.length ∨ Program.retFailAt < op) : ∃ entry e, TryAt p T op₀ s₀ entry e ∧
        e.frames.length = depth ∧ Stays p T depth entry e op' s' := by
    obtain ⟨entry, e, try_, size, path⟩ := tried.tries depth positive le
    exact ⟨entry, e, try_, size, path.then_ inner range taken⟩
  have newest (call : ∃ f rest, s'.frames = f :: rest ∧ p.entries[f.ruleset]? = some op' ∧
      f.captureBase = s'.captures.size) : ∃ entry e, TryAt p T op₀ s₀ entry e ∧
        e.frames.length = s'.frames.length ∧ Stays p T s'.frames.length entry e op' s' :=
    ⟨op', s', ⟨path.trans (.one range taken), call⟩, rfl, .here op' s'⟩
  constructor
  · rintro rfl
    obtain ⟨rule, held⟩ := (visited.exits.next closed taken).2 rfl
    obtain ⟨-, frames, f, rest, open_, size⟩ := giveOutput_next held range taken
    rw [frames, open_, List.head?_cons]
    rintro g ⟨⟩
    exact size.ge
  · have goes := step_goes p (Buffer.complete T) op s
    rw [taken] at goes
    intro depth positive le
    cases goes with
    | @onward o _ _ held target same =>
        rw [length s', same, ← length s] at le
        refine older positive le (Or.inr (behind_retFailAt ret retFail held ?_ ?_))
        · rintro rfl
          cases target
        · rintro rfl
          cases target
    | @begins ruleset pass fail _ _ held found more =>
        rw [length s', more, List.length_cons, ← length s] at le
        obtain rfl | lt := Nat.eq_or_lt_of_le le
        · have deeper : s'.frames.length = s.frames.length + 1 := by
            rw [length s', more, List.length_cons, ← length s]
          rw [← deeper]
          exact newest (call_begins held taken (by omega))
        · exact older positive (Nat.le_of_lt_succ lt)
            (Or.inr (behind_retFailAt ret retFail held Op.noConfusion Op.noConfusion))
    | @again ruleset _ _ held found open_ same =>
        have level : s'.frames.length = s.frames.length := by rw [length s', same, ← length s]
        obtain rfl | lt := Nat.eq_or_lt_of_le le
        · exact newest (leave_again held (tried.based (closed.ret op held)) taken level)
        · exact older positive (by omega) (Or.inl (by omega))
    | @leaves pass fail _ rest _ held newest exit left =>
        rw [length s', left] at le
        have deeper : s.frames.length = rest.length + 1 := by rw [length s, newest, List.length_cons]
        exact older positive (by omega) (Or.inl (by omega))

theorem Reaches.tried (closed : p.Closed) (entries : p.entries.size = n) (ret : p.ops[Program.retAt]? = some .ret)
    (retFail : p.ops[Program.retFailAt]? = some .retFail) (before : Reaches p T op₀ s₀ op s)
    (visited : Visited p T n op s) (tried : Tried p T op₀ s₀ op s) (path : Reaches p T op s op' s') :
    Tried p T op₀ s₀ op' s' := by
  induction path with
  | here => exact tried
  | onward range taken _ ih =>
      exact ih (before.trans (.one range taken)) (visited.next closed entries range taken)
        (tried.next closed ret retFail visited before range taken)

/-- What a path over a whole text comes to follows the runs over that text. -/
theorem Reaches.follows {a : AnnotatedGrammar} {library : Library} (fits : T.utf8ByteSize ≤ Buffer.maxOffset)
    (path : Reaches (Program.ofGrammar a library) T (Program.ofGrammar a library).root (a.first library) op s) :
    Follows a library (Buffer.complete T) T op s := by
  refine ⟨Buffer.shows_complete T, fits, fun more ended _ => ?_⟩
  rwa [ended (Buffer.complete_closed T), String.append_empty]

end Machine

/-! ## The output of a rule -/

section

variable {a : AnnotatedGrammar} {library : Library} {T : String}

theorem AnnotatedGrammar.first_tried (a : AnnotatedGrammar) (library : Library) (T : String) (op : Nat) :
    Tried (Program.ofGrammar a library) T op (a.first library) op (a.first library) :=
  ⟨fun _ => (fun _ member => nomatch member), fun _ positive le => absurd positive (Nat.not_lt.2 le)⟩

/-- The captures are those of a match of the patterns. -/
def Pattern.Matched (ps : List Pattern) (captures : List Capture) : Prop :=
  ∃ T call calls pos stop again, Pattern.parse T call ps calls pos = .pass stop captures again

/-- The ops of a choice do not work out outputs. -/
theorem Compiled.choice_inner (linked : a.Linked) {patterns : List Pattern} {base pass fail op rule next : Nat}
    (compiled : Compiled a (.choice patterns) base pass fail)
    (held : (Program.ofGrammar a library).ops[op]? = some (.output rule next)) :
    ¬ Among base (Part.choice patterns).fragment.size op := by
  rintro ⟨le, lt⟩
  obtain ⟨ops, -⟩ := compiled.stands library linked.every ⟨a.entry, rfl, linked.entry⟩
  have construct : (Part.choice patterns).IsConstruct := trivial
  have length := (Part.fragment_movable construct).length_eq base pass fail
  obtain ⟨i, rfl⟩ := Nat.exists_eq_add_of_le le
  have inside : i < ((Part.choice patterns).fragment base pass fail).ops.length := by omega
  have found := List.getElem?_eq_getElem inside
  have inner := Part.fragment_inner construct base pass fail _ (List.getElem_mem inside)
  rw [← Option.some.inj ((ops i _ found).symm.trans held).symm] at inner
  exact inner

/-- From where the rules of a ruleset begin to be tried, the run comes within the call to the output of
a rule only when the patterns of that rule matched. By induction on the rules: each of them is
tried where the ones before it failed. -/
theorem Machine.Stays.captures_at_output (linked : a.Linked) (fits : T.utf8ByteSize ≤ Buffer.maxOffset)
    {rules : List Rule} {index base op rule next : Nat} {e s : State}
    (compiled : Compiled a (.rules index rules) base Program.retAt Program.retFailAt)
    (before : Reaches (Program.ofGrammar a library) T (Program.ofGrammar a library).root (a.first library)
      (Program.rulesFragment index rules base Program.retAt Program.retFailAt).entry e)
    (path : Stays (Program.ofGrammar a library) T e.frames.length
      (Program.rulesFragment index rules base Program.retAt Program.retFailAt).entry e op s)
    (held : (Program.ofGrammar a library).ops[op]? = some (.output rule next))
    (shallow : s.frames.length ≤ e.frames.length) :
    ∃ i r captures, rules[i]? = some r ∧ rule = index + i ∧ Pattern.Matched r.patterns captures ∧
      s.captures.toList = e.captures.toList ++ captures ∧
      s.frames.map Frame.plain = e.frames.map Frame.plain := by
  induction rules generalizing index e with
  | nil =>
      cases path with
      | here => cases held.symm.trans (Program.ofGrammar_retFail a library)
      | onward inner => exact absurd inner (by simp [Program.rulesFragment, Fragment.fail])
  | cons r rest ih =>
      have choice := compiled.rule
      obtain ⟨ops, -⟩ := compiled.stands library linked.every ⟨a.entry, rfl, linked.entry⟩
      rw [Part.fragment, Program.rulesFragment] at ops
      have output := ops.right.head
      have visited := before.visited (Program.ofGrammar_closed a library) (Program.size_entries a library)
        (a.first_visited library T)
      obtain ⟨o, t, leaves, onward, rest'⟩ := path.splits shallow (choice.choice_inner linked held)
      have level (open_ : SameOpen e t) : t.frames.length = e.frames.length := by
        rw [← List.length_map (f := Frame.plain), open_.frames, List.length_map]
      obtain ⟨T', call, passes | fails⟩ := choice.leaves_parse linked trivial (before.follows fits) visited.pending
        visited.status leaves
      · obtain ⟨stop, captures, again, outcome, rfl, passed⟩ := passes
        have open_ := passed.kept.sameOpen
        cases rest' with
        | here =>
            cases held.symm.trans output
            exact ⟨0, r, captures, rfl, rfl, ⟨T', call, _, _, _, _, outcome⟩, passed.captures, open_.frames⟩
        | onward inner range taken rest' =>
            obtain ⟨rfl, frames, -⟩ := giveOutput_next output range taken
            cases rest' with
            | here => cases held.symm.trans (Program.ofGrammar_ret a library)
            | onward inner' =>
                rw [frames, level open_] at inner'
                exact absurd inner' (by simp [Program.retAt, Program.retFailAt])
      · obtain ⟨again, -, rfl, failed⟩ := fails
        have open_ := failed.kept.sameOpen
        rw [← level open_] at rest' shallow
        obtain ⟨i, r', captures, found, place, matched, all, frames⟩ :=
          ih compiled.laterRules (before.trans onward) rest' shallow
        refine ⟨i + 1, r', captures, found, by omega, matched, ?_, frames.trans open_.frames⟩
        rw [all, failed.captures]
        rfl

/-- Where the output of a rule is worked out, the captures since the call began are those of a match of
the patterns of that rule. -/
theorem Machine.Reaches.captures_at_output (linked : a.Linked) (fits : T.utf8ByteSize ≤ Buffer.maxOffset)
    {op rule next : Nat} {s : State}
    (path : Reaches (Program.ofGrammar a library) T (Program.ofGrammar a library).root (a.first library) op s)
    (held : (Program.ofGrammar a library).ops[op]? = some (.output rule next)) :
    ∃ f rest r before captures, s.frames = f :: rest ∧
      (a.grammar.rulesets.flatMap Ruleset.rules)[rule]? = some r ∧ before.length = f.captureBase ∧
      s.captures.toList = before ++ captures ∧ Pattern.Matched r.patterns captures := by
  have range := (path.follows fits).inRange linked
  rw [InRange, held] at range
  obtain ⟨-, f, rest, frames, -⟩ := range
  have tried := Reaches.tried (Program.ofGrammar_closed a library) (Program.size_entries a library)
    (Program.ofGrammar_ret a library) (Program.ofGrammar_retFail a library) (.here _ _) (a.first_visited library T)
    (a.first_tried library T _) path
  obtain ⟨entry, e, ⟨before, g, rest', open_, found, base⟩, level, within⟩ :=
    tried.tries s.frames.length (by rw [frames]; exact Nat.succ_pos _) le_rfl
  have lt : g.ruleset < a.grammar.rulesets.length := by
    rw [← Program.size_entries a library]
    exact (Array.getElem?_eq_some_iff.1 found).1
  obtain ⟨earlier, later, split, length⟩ := List.exists_of_getElem? (List.getElem?_eq_getElem lt)
  have placed := (Program.ofGrammar_placed library split).entry
  rw [length, found, Program.codeAfter, Program.length_rulePlaces, ← Program.length_opPlaces 2 0] at placed
  cases placed
  rw [← level] at within
  obtain ⟨i, r, captures, isRule, rfl, matched, all, plain⟩ :=
    within.captures_at_output linked fits (.ruleset split) before held level.ge
  have same : f.captureBase = g.captureBase := by
    rw [frames, open_] at plain
    have head : f.plain = g.plain := (List.cons.inj plain).1
    exact (congrArg Frame.captureBase head :)
  refine ⟨f, rest, r, e.captures.toList, captures, frames, ?_, ?_, all, matched⟩
  · rw [split, List.flatMap_append, List.flatMap_cons, List.getElem?_append_right (Nat.le_add_right _ _),
      Nat.add_sub_cancel_left, List.getElem?_append_left (List.getElem?_eq_some_iff.1 isRule).1, isRule]
  · rw [same, base, Array.length_toList]

end

end PegFlow
