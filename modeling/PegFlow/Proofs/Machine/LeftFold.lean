/-
# PegFlow.Proofs.Machine.LeftFold -- calls of left recursive rulesets fold

Wherever a run over a whole text comes to a call of a ruleset that extends itself, the call
is left at its exit for failure, with no trace of it, if all bases of the ruleset fail there,
and else at its exit for success, with the fold of the tails over the first base that matches
(`Grammar.GrowsLeft.leaves_folded`), as long as fewer lookaheads are open at once than the
machine can count. What the fold needs, that tails and bases do not come back
to the call before they use up input, is told by the tree of the grammar wherever a run comes to
the call (`Grammar.Apart.of_path`).
-/
import PegFlow.Proofs.Machine.Seed
import PegFlow.Proofs.Meaning.Leading

namespace PegFlow

set_option autoImplicit false

open Machine

namespace Machine

variable {p : Program} {T : String} {inside : Nat → Prop} {depth op op' : Nat} {s s' : State}

/-- A path to somewhere outside leaves what is inside. -/
theorem Reaches.leaves (path : Reaches p T op s op' s') (shallow : s'.frames.length ≤ depth)
    (outside : ¬ inside op') :
    ∃ o t, Leaves p inside depth (Buffer.complete T) op s (Buffer.complete T) o t := by
  induction path with
  | here op s => exact ⟨op, s, .out shallow outside⟩
  | @onward op _ _ s _ _ range taken _ ih =>
      by_cases inner : depth < s.frames.length ∨ inside op
      · obtain ⟨o, t, rest⟩ := ih shallow outside
        exact ⟨o, t, .on inner taken rest⟩
      · rw [not_or] at inner
        exact ⟨op, s, .out (Nat.le_of_not_lt inner.1) inner.2⟩

end Machine

namespace AnnotatedGrammar

/-- As deep as calls may nest, since no two calls under way are alike. -/
def callDepth (g : AnnotatedGrammar) (T : String) : Nat :=
  g.grammar.rulesets.length * (T.utf8ByteSize + 1)

/-- An attempt to match tokens while calls are under way. -/
def attempt (g : AnnotatedGrammar) (library : Library) (T : String) (calls : List OpenCall)
    (tokens : List Token) (pos : Nat) : Outcome (List Capture) :=
  Token.parse T (g.grammar.call library T (g.callDepth T)) tokens calls pos

end AnnotatedGrammar

/-! ## How a call is left -/

theorem Returned.advanced {T : String} {s s' : State} {again : List (Nat × Nat)} {stop : Nat} {v : Value}
    (returned : Returned T (s.noted again) stop v s') : Advanced s s' := returned.1.advanced

theorem State.NotUnderWay.at? {s : State} {ruleset : Nat} (fresh : s.NotUnderWay ruleset) :
    OpenCall.at? s.calls (ruleset, s.pos) = none := by
  have none : (s.frames.find? fun f => f.isAt ruleset s.pos) = none := by
    rw [List.find?_eq_none]
    intro f member is
    exact fresh (List.mem_map.2 ⟨f, member, Frame.isAt_iff.1 is⟩)
  rw [OpenCall.at?, s.find?_calls ruleset, none, Option.map_none]

theorem Ready.forward {T : String} {n depth : Nat} {s : State} (ready : Ready T n depth s) :
    OpenCall.Forward s.calls := by
  intro c member seed answer
  obtain ⟨f, inside, rfl⟩ := List.mem_map.1 member
  exact (ready.answers f inside seed answer).1

section

variable {g : AnnotatedGrammar} {library : Library} {T : String} {ruleset op pass fail : Nat}
  {name : String} {s : State}

/-- A reference is left as the meaning of calls says. -/
theorem Compiled.call_leaves (linked : g.Linked) (fits : T.utf8ByteSize ≤ Buffer.maxOffset)
    (shallow : Shallow g (Program.ofGrammar g library) (Buffer.complete T))
    (compiled : Compiled g (.matcher (.ref name (some ruleset))) op pass fail)
    (path : Reaches (Program.ofGrammar g library) T (Program.ofGrammar g library).root (g.first library) op s)
    (noError : ∀ f, g.grammar.call library T (g.callDepth T) ruleset s.calls s.pos ≠ .error f) :
    ∃ o t, Leaves (Program.ofGrammar g library) (Among op 1) s.frames.length (Buffer.complete T) op s
        (Buffer.complete T) o t ∧
      ((∃ again, g.grammar.call library T (g.callDepth T) ruleset s.calls s.pos = .fail again ∧
          o = fail ∧ Failed (s.noted again) t) ∨
        ∃ stop v again, g.grammar.call library T (g.callDepth T) ruleset s.calls s.pos =
          .pass stop v again ∧ o = pass ∧ Returned T (s.noted again) stop v t) := by
  obtain ⟨held, passBefore, failBefore, every⟩ := compiled.stands library linked.every
    ⟨g.entry, rfl, linked.entry⟩
  obtain ⟨_, same, lt⟩ : ∃ r, some ruleset = some r ∧ r < g.grammar.rulesets.length := every
  cases same
  have closed := Program.ofGrammar_closed g library
  have visited := path.visited closed (Program.size_entries g library) (g.first_visited library T)
  have passOut : ¬ Among op 1 pass := fun inside => by
    have := inside.1
    omega
  have failOut : ¬ Among op 1 fail := fun inside => by
    have := inside.1
    omega
  obtain ⟨o, t, leaves⟩ : ∃ o t, Leaves (Program.ofGrammar g library) (Among op 1) s.frames.length
      (Buffer.complete T) op s (Buffer.complete T) o t := by
    have run := (AnnotatedGrammar.call_means linked fits (g.callDepth T) ruleset lt pass op fail held s
      visited.ready).resolve_left (shallow.not_overflows path)
    have shallow : ∀ {t : State} {again : List (Nat × Nat)}, Kept (s.noted again) t →
        t.frames.length ≤ s.frames.length := fun kept => by
      rw [kept.frames, State.noted, List.length_map]
    cases outcome : g.grammar.call library T (g.callDepth T) ruleset s.calls s.pos with
    | pass stop v again =>
        rw [outcome] at run
        obtain ⟨t, path, returned⟩ := run
        exact path.leaves (shallow returned.1.kept) passOut
    | fail again =>
        rw [outcome] at run
        obtain ⟨t, path, failed⟩ := run
        exact path.leaves (shallow failed.kept) failOut
    | error f => exact absurd outcome (noError f)
    | deep =>
        rw [outcome] at run
        exact run.elim
  have left := leaves.of_means (f := Fragment.call ruleset) closed (.call ruleset) (.call ruleset) held
    passOut failOut (AnnotatedGrammar.call_means_of_extends linked fits (Program.withCopy_extends _ _) _
      ruleset lt) visited
  refine ⟨o, t, leaves, ?_⟩
  rw [← AnnotatedGrammar.callDepth] at left
  cases outcome : g.grammar.call library T (g.callDepth T) ruleset s.calls s.pos with
  | pass stop v again =>
      rw [outcome] at left
      exact Or.inr ⟨stop, v, again, rfl, left⟩
  | fail again =>
      rw [outcome] at left
      exact Or.inl ⟨again, rfl, left⟩
  | error f => exact absurd outcome (noError f)
  | deep =>
      rw [outcome] at left
      exact left.elim

end

theorem AnnotatedGrammar.Linked.callDepth_pos {g : AnnotatedGrammar} (linked : g.Linked) (T : String) :
    0 < g.callDepth T :=
  Nat.mul_pos (Nat.zero_lt_of_lt linked.entry) (Nat.succ_pos _)

/-! ## Tails and bases that are apart -/

/-- Where a ruleset is called, the results so far of the calls under way are ahead of where those
began. -/
theorem Machine.Agrees.ahead {g : Grammar} {p : Program} {b : Buffer} {op ruleset pass fail : Nat}
    {s : State} (agrees : Agrees g p b op s) (call : p.ops[op]? = some (.call ruleset pass fail))
    (key : Nat × Nat) : OpenCall.Ahead g key s.calls := by
  intro c member _
  obtain ⟨f, under, rfl⟩ := List.mem_map.1 member
  exact ((agrees.calls call).answered f under).1

/-- Wherever a run over a whole text comes to a call of a ruleset, tails and bases are apart from
it when the calls at their start do not lead to it. -/
theorem Grammar.Apart.of_path {a : AnnotatedGrammar} (linked : a.Linked) {library : Library} {T : String}
    {ruleset op pass fail : Nat} {name : String} {steps bases : List Alternative} {s : State}
    (compiled : Compiled a (.matcher (.ref name (some ruleset))) op pass fail)
    (path : Reaches (Program.ofGrammar a library) T (Program.ofGrammar a library).root (a.first library) op s)
    (tails : ∀ x ∈ steps, ∀ first ∈ Token.leadingCalls a.grammar.nullable x.tail,
      ¬ a.grammar.LeadsTo first ruleset)
    (free : ∀ x ∈ bases, ∀ first ∈ Token.leadingCalls a.grammar.nullable x.tokens,
      ¬ a.grammar.LeadsTo first ruleset) (depth : Nat) :
    a.grammar.Apart library T depth ruleset steps bases s.calls s.pos := by
  obtain ⟨held, -⟩ := compiled.stands library linked.every ⟨a.entry, rfl, linked.entry⟩
  have agrees := AnnotatedGrammar.agrees_of_path linked library path
  exact .of_leading (agrees.ahead held.head (ruleset, s.pos)) tails free

/-! ## Calls that fold -/

/-- Wherever a run over a whole text comes to a call of a ruleset that extends itself, where it
is not under way and causes no fault, and fewer lookaheads are open at once than can be counted:
if all bases fail there, the call fails and leaves no trace, and else it matches, with the fold
of the tails over the first base that matches. -/
theorem Grammar.GrowsLeft.leaves_folded {g : Grammar} {callbacks : List String} {a : AnnotatedGrammar}
    (accepted : g.annotate? callbacks = .ok a) (library : Library) {ruleset : Nat}
    {steps bases : List Alternative} (grows : a.grammar.GrowsLeft ruleset steps bases) {name : String}
    {op pass fail : Nat} (compiled : Compiled a (.matcher (.ref name (some ruleset))) op pass fail)
    {T : String} (fits : T.utf8ByteSize ≤ Buffer.maxOffset)
    (shallow : Shallow a (Program.ofGrammar a library) (Buffer.complete T)) {s : State}
    (path : Reaches (Program.ofGrammar a library) T (Program.ofGrammar a library).root (a.first library) op s)
    (fresh : s.NotUnderWay ruleset)
    (apart : a.grammar.Apart library T (a.callDepth T) ruleset steps bases s.calls s.pos)
    (noError : ∀ f, a.grammar.call library T (a.callDepth T) ruleset s.calls s.pos ≠ .error f) :
    ∃ o t, Leaves (Program.ofGrammar a library) (Among op 1) s.frames.length (Buffer.complete T) op s
        (Buffer.complete T) o t ∧
      ((∀ x ∈ bases, (a.attempt library T s.calls x.tokens s.pos).Fails) → o = fail ∧ Undone s t) ∧
      ((¬ ∀ x ∈ bases, (a.attempt library T s.calls x.tokens s.pos).Fails) →
        ∃ v, o = pass ∧ Advanced s t ∧ t.result = some v ∧
          LeftFold library T (a.attempt library T s.calls) steps bases s.pos ⟨v, t.pos⟩) := by
  have linked := Grammar.annotate?_linked accepted
  have visited := path.visited (Program.ofGrammar_closed a library) (Program.size_entries a library)
    (a.first_visited library T)
  obtain ⟨o, t, leaves, left⟩ := compiled.call_leaves linked fits shallow path noError
  refine ⟨o, t, leaves, ?_⟩
  have settled : (a.grammar.call library T (a.callDepth T) ruleset s.calls s.pos).Settled := by
    rcases left with ⟨again, outcome, -⟩ | ⟨stop, v, again, outcome, -⟩ <;> exact outcome ▸ trivial
  rcases apart.call_folds grows (Grammar.annotate?_laid accepted).alternatives visited.ready.forward
    (linked.callDepth_pos T) fresh.at? settled with ⟨⟨_, fails⟩, all⟩ | ⟨last, ⟨_, passes⟩, fold⟩
  · rcases left with ⟨again, outcome, exit, failed⟩ | ⟨stop, v, again, outcome, -⟩
    · exact ⟨fun _ => ⟨exit, failed.undone⟩, fun some_ => absurd all some_⟩
    · cases fails.symm.trans outcome
  · rcases left with ⟨again, outcome, -⟩ | ⟨stop, v, again, outcome, exit, returned⟩
    · cases passes.symm.trans outcome
    · cases passes.symm.trans outcome
      refine ⟨fun all => ?_, fun _ => ⟨last.value, exit, returned.advanced, returned.2, ?_⟩⟩
      · obtain ⟨_, _, _, _, first, -⟩ := fold
        exact absurd all first.not_all_fail
      · rw [returned.1.pos]
        exact fold

/-- An `a` and exclamation marks: `return` is a `return` and a mark, in a list, or an `a`. -/
def Grammar.marks : Grammar :=
  Grammar.empty.addRuleset "return" [
    .ofPatterns [.ofTokens [.captureRef "return", .literal "!"]] (some (.array [.back 1])),
    .ofPatterns [.ofTokens [.literal "a"]] none]

namespace Grammar.marks

/-- The alternative that begins with `return` again. -/
def stepTokens : List Token :=
  [{ matcher := .capture [{ tokens := [{ matcher := .ref "return" (some 0), id := 6 }], id := 5 }] 1
     id := 4 },
    { matcher := .literal "!" (some 0), id := 7 }]

/-- The alternative that does not. -/
def baseTokens : List Token := [{ matcher := .literal "a" (some 1), id := 10 }]

/-- The rules, with their annotations. -/
def rules : List Rule :=
  [{ patterns := [{ tokens := stepTokens, id := 3 }], output := some (.array [.back 1])
     captures := [false], id := 2 },
    { patterns := [{ tokens := baseTokens, id := 9 }], id := 8 }]

/-- The grammar with its annotations. -/
def annotated : AnnotatedGrammar where
  grammar := { rulesets := [{ name := "return", rules, id := 1 }], lookup := [("return", 0)], maxId := 10 }
  terminals := [.literal "!", .literal "a"]
  entry := 0
  warnings := (Grammar.marks.annotate? []).toOption.elim [] AnnotatedGrammar.warnings

theorem accepted : Grammar.marks.annotate? [] = .ok annotated := rfl

theorem growsLeft :
    annotated.grammar.GrowsLeft 0 [⟨stepTokens, rules[0]⟩] [⟨baseTokens, rules[1]⟩] where
  alternatives := rfl
  extend x member := by
    rw [List.mem_singleton.1 member]
    exact ⟨_, _, _, _, _, rfl, rfl⟩

/-- Texts alone call nothing, so they are apart from `return` over every text. -/
theorem apart (T : String) (depth : Nat) :
    annotated.grammar.Apart {} T depth 0 [⟨stepTokens, rules[0]⟩] [⟨baseTokens, rules[1]⟩] [] 0 := by
  refine .of_path (s := annotated.first {}) (Grammar.annotate?_linked accepted) .whole (.here _ _) ?_ ?_ depth
  · intro x member first called
    rw [List.mem_singleton.1 member] at called
    cases called
  · intro x member first called
    rw [List.mem_singleton.1 member] at called
    cases called

end Grammar.marks

open Grammar.marks in
/-- The call of the whole grammar passes, with the marks folded over the `a`. -/
theorem Grammar.GrowsLeft.leaves_folded_of_marks :
    ∃ o t v, Leaves (Program.ofGrammar annotated {}) (Among 15 1) 0 (Buffer.complete "a!!") 15
        (annotated.first {}) (Buffer.complete "a!!") o t ∧ o = 13 ∧ t.result = some v ∧
      LeftFold {} "a!!" (annotated.attempt {} "a!!" []) [⟨stepTokens, rules[0]⟩] [⟨baseTokens, rules[1]⟩] 0
        ⟨v, t.pos⟩ := by
  have stop : (annotated.grammar.call {} "a!!" (annotated.callDepth "a!!") 0 [] 0).stop? = some 3 := by
    decide +kernel
  obtain ⟨v, again, outcome⟩ := Outcome.stop?_eq_some_iff.1 stop
  have fresh : (annotated.first {}).NotUnderWay 0 := by
    simp [State.NotUnderWay, AnnotatedGrammar.first, State.start]
  have fits : "a!!".utf8ByteSize ≤ Buffer.maxOffset := by decide
  have shallow : Shallow annotated (Program.ofGrammar annotated {}) (Buffer.complete "a!!") :=
    .of_length (Grammar.annotate?_linked accepted) (by decide) (by decide)
  obtain ⟨o, t, leaves, -, folded⟩ := growsLeft.leaves_folded accepted {} .whole fits shallow (.here _ _) fresh
    (apart _ _) fun f error => by cases error.symm.trans outcome
  obtain ⟨v, exit, -, result, fold⟩ := folded fun all => by
    obtain ⟨again, fails⟩ := all ⟨baseTokens, rules[1]⟩ List.mem_cons_self
    have passes : (annotated.attempt {} "a!!" [] baseTokens 0).stop? = some 1 := by decide +kernel
    cases (congrArg Outcome.stop? fails).symm.trans passes
  exact ⟨o, t, v, leaves, exit, result, fold⟩

end PegFlow
