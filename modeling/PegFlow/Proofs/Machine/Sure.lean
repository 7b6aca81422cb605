/-
# PegFlow.Proofs.Machine.Sure -- patterns that never fail, and what is never tried

In every state that a run comes by, the op at hand may run by the marks of the grammar, and so
may those that the calls under way go on at (`Reaches.live`): a step turns to one of the places
of `Op.turns`, or to a place noted before (`turns_of_step`). A sure pattern that is begun is left
at its exit for success (`Compiled.sure_neverFails`).

So the finding that a pattern cannot fail, and that what follows it is never tried, is right
about every pattern but for those with a required token that is repeated
(`Grammar.sure_patterns_never_fail`). One of those is left at its exit for failure when what is
repeated matches nothing (`Grammar.emptyTexts_fail`).
-/
import PegFlow.Proofs.Machine.Balanced
import PegFlow.Proofs.Meaning.Sure
import PegFlow.Proofs.Program.Shadowed
import PegFlow.Grammar.Build

namespace PegFlow

set_option autoImplicit false

open Text

/-! ## Where a step turns -/

theorem Buffer.matchChunks_nil (pos : Nat) (chunks : List Chunk) : matchChunks pos chunks [] = some [] := by
  cases chunks with
  | nil => rfl
  | cons c rest => rw [matchChunks, matchFrom]

/-- An empty text is found wherever text can be read. -/
theorem Terminal.matchAt_empty (b : Buffer) (pos : Nat) :
    (literal "").matchAt b pos = .ok (some 0) ∨
      ∃ start, (literal "").matchAt b pos = .error (.inputFreed pos start) := by
  have none : octets "" = [] := rfl
  rw [matchAt_literal, Buffer.startsWith, none, Buffer.matchChunks_nil, Buffer.checkRetained]
  split
  · exact Or.inr ⟨_, rfl⟩
  · exact Or.inl rfl

namespace Machine

open Program

variable {p : Program} {b : Buffer} {T : String} {op op' : Nat} {s s' : State} {o : Op}

theorem pass_of_leaveLoop {pass fail : Nat} (taken : s.leaveLoop 0 pass fail = .next op' s') : op' = pass := by
  unfold State.leaveLoop at taken
  split at taken
  · cases taken
  · cases taken
    exact if_pos (Nat.zero_le _)

/-- A step that goes on at a place its op names turns there. -/
theorem turns_of_step (held : p.ops[op]? = some o) (taken : step p b op s = .next op' s')
    (target : op' ∈ o.targets) : op' ∈ o.turns p.terminals := by
  simp only [step, held] at taken
  cases o with
  | terminal id pass fail =>
      rw [Op.turns]
      split
      · rename_i found
        simp only [State.testTerminal, found] at taken
        rcases Terminal.matchAt_empty b s.pos with here | ⟨start, freed⟩
        · simp only [here] at taken
          cases taken
          exact List.mem_cons_self
        · simp only [freed] at taken
          cases taken
      · exact target
  | loopNext body least pass fail =>
      rw [Op.turns]
      by_cases none : least = 0
      · subst none
        simp only [State.nextRound] at taken
        split at taken
        · cases taken
        · split at taken
          · simp [pass_of_leaveLoop taken]
          · cases taken
            exact List.mem_cons_self
      · rw [if_neg none]
        exact target
  | loopExit least pass fail =>
      rw [Op.turns]
      by_cases none : least = 0
      · subst none
        simp [pass_of_leaveLoop taken]
      · rw [if_neg none]
        exact target
  | _ => exact target

/-- The op at hand may run, and so may those that the calls under way go on at. -/
structure Live (a : AnnotatedGrammar) (op : Nat) (s : State) : Prop where
  op : IsLive a op
  exits : ∀ e ∈ s.exits, IsLive a e.1 ∧ IsLive a e.2

variable {a : AnnotatedGrammar} {library : Library}

theorem Live.next (linked : a.Linked) (live : Live a op s)
    (taken : step (ofGrammar a library) b op s = .next op' s') : Live a op' s' := by
  obtain ⟨here, exits⟩ := live
  obtain ⟨entries, -, turns⟩ := live_closed linked library
  have goes := step_goes (ofGrammar a library) b op s
  rw [taken] at goes
  cases goes with
  | onward held target same =>
      exact ⟨turns op _ held here op' (turns_of_step held taken target), fun e member => exits e (same ▸ member)⟩
  | @begins ruleset pass fail _ _ held found more =>
      have exit := turns op _ held here
      refine ⟨entries ruleset op' found, fun e member => ?_⟩
      rw [more] at member
      rcases List.mem_cons.1 member with rfl | older
      · exact ⟨exit pass (by simp [Op.turns, Op.targets]), exit fail (by simp [Op.turns, Op.targets])⟩
      · exact exits e older
  | again held found open_ same => exact ⟨entries _ op' found, fun e member => exits e (same ▸ member)⟩
  | leaves held newest exit left =>
      rw [newest] at exits
      refine ⟨?_, fun e member => exits e (List.mem_cons_of_mem _ (left ▸ member))⟩
      have last := exits _ List.mem_cons_self
      rcases exit with rfl | rfl
      · exact last.1
      · exact last.2

theorem Reaches.live (linked : a.Linked) (path : Reaches (ofGrammar a library) T op s op' s') (live : Live a op s) :
    Live a op' s' := by
  induction path with
  | here => exact live
  | onward _ taken _ ih => exact ih (live.next linked taken)

/-- No op at these places ever runs. -/
def NeverRuns (p : Program) (base size : Nat) : Prop :=
  ∀ (b : Buffer) (s₀ s : State) (first n op : Nat), Reachable p b s₀ → s₀.pending = some first →
    Steps p b n first s₀.resumed op s → ¬ Among base size op

theorem neverRuns_of_not_live (linked : a.Linked) {base size : Nat}
    (dark : ∀ t, Among base size t → ¬ IsLive a t) : NeverRuns (ofGrammar a library) base size := by
  intro b s₀ s first n op reachable pending steps among
  obtain ⟨P, rests⟩ := reachable.rests linked
  have follows := (rests.goesOn first pending).steps linked steps
  have path := follows.path "" (fun _ => rfl) follows.fits_whole
  have start : Live a (ofGrammar a library).root (a.first library) :=
    ⟨(live_closed linked library).2.1, by simp [State.exits, AnnotatedGrammar.first, State.start]⟩
  exact dark op among (path.live linked start).op

end Machine

open Machine

/-! ## Sure patterns -/

/-- What is begun at the entry of the fragment at `base` is never left at the exit for failure,
whatever text comes meanwhile: it is left at `pass`, with what was open as it was, no earlier
position and more captures or the same ones. -/
def Fragment.NeverFails (f : Fragment) (p : Program) (base pass fail : Nat) : Prop :=
  ∀ (b b' : Buffer) (s₀ s t : State) (first n o : Nat), Reachable p b s₀ → s₀.pending = some first →
    Steps p b n first s₀.resumed (f base pass fail).entry s →
    Leaves p (Among base f.size) s.frames.length b (f base pass fail).entry s b' o t →
    o = pass ∧ Advanced s t

theorem Compiled.sure_neverFails {a : AnnotatedGrammar} {library : Library} (linked : a.Linked)
    {tokens : List Token} {base pass fail : Nat} (compiled : Compiled a (.pattern tokens) base pass fail)
    (sure : Token.allSure tokens = true) :
    (Part.pattern tokens).fragment.NeverFails (Program.ofGrammar a library) base pass fail := by
  intro b b' s₀ s t first n o reachable pending steps leaves
  obtain ⟨P, rests⟩ := reachable.rests linked
  have follows := (rests.goesOn first pending).steps linked steps
  have running := steps.running rfl rfl
  obtain ⟨T, call, passes | fails⟩ := compiled.leaves_parse linked trivial follows running.1 running.2 leaves
  · obtain ⟨stop, captures, again, -, rfl, passed⟩ := passes
    exact ⟨rfl, passed.advanced⟩
  · obtain ⟨again, failed, -⟩ := fails
    exact absurd failed (Token.neverFails tokens sure s.calls s.pos again)

/-! ## What the annotation and its findings say -/

/-- In every accepted grammar, whatever its templates are evaluated with. A sure pattern is
annotated as one that cannot fail, and never fails when it is tried; a pattern that is annotated
so is sure or holds a required token that is repeated. Every finding of an unreachable alternative
shadows some pattern, and if it comes after a sure pattern, no op of it ever runs. -/
theorem Grammar.sure_patterns_never_fail {g : Grammar} {callbacks : List String} {a : AnnotatedGrammar}
    (accepted : g.annotate? callbacks = .ok a) (library : Library) :
    (∀ (x : Pattern) (rest : List Pattern) (base pass fail : Nat),
      Compiled a (.choice (x :: rest)) base pass fail →
        (x.sure = true → x.canFail = false ∧
          (Part.pattern x.tokens).fragment.NeverFails (Program.ofGrammar a library)
            (base + (Pattern.fragment rest).size) pass (Pattern.fragment rest base pass fail).entry) ∧
        (x.canFail = false → x.sure = true ∨ ∃ t ∈ Pattern.allTokens [x], t.Insists)) ∧
    (∀ w ∈ a.warnings, w.kind = .unreachableAlternative → Shadowing a w) ∧
    ∀ w x y base, Shadows a w x y base →
      (∃ pass fail, Compiled a (.pattern y.tokens) base pass fail) ∧ x.canFail = false ∧
      (x.sure = true → NeverRuns (Program.ofGrammar a library) base y.size) := by
  have linked := Grammar.annotate?_linked accepted
  refine ⟨fun x rest base pass fail choice => ?_, fun w => AnnotatedGrammar.shadowing_of_warning accepted,
    fun w x y base shadows => ⟨shadows.compiled, shadows.never, fun sure => ?_⟩⟩
  · have marked : Pattern.Marked (x :: rest) := choice.marked (Grammar.annotate?_marked accepted)
    have pattern := choice.pattern
    rw [(Pattern.fragment_movable rest).length_eq] at pattern
    exact ⟨fun sure => ⟨marked.canFail_eq_false.1 sure, pattern.sure_neverFails linked sure⟩,
      marked.canFail_eq_false.2⟩
  · exact neverRuns_of_not_live linked fun t => shadows.not_live linked sure

/-- Three alternatives: empty texts, one at least; a `b` that may be left out; an `a`. -/
def Grammar.emptyTexts : Grammar :=
  Grammar.empty.addRuleset "return" [
    .ofPatterns [.ofTokens [(Token.literal "").plus]] none,
    .ofPatterns [.ofTokens [(Token.literal "b").opt]] none,
    .ofPatterns [.ofTokens [.literal "a"]] none]

/-- The first alternative, with its annotations. -/
def Pattern.someEmpty : Pattern :=
  { tokens := [{ matcher := .literal "" (some 0), repeated := true, id := 4 }], canFail := false, id := 3 }

/-- The second alternative, with its annotations. -/
def Pattern.maybeB : Pattern :=
  { tokens := [{ matcher := .literal "b" (some 1), required := false, id := 7 }], canFail := false, id := 6 }

/-- The third alternative, with its annotations. -/
def Pattern.oneA : Pattern := { tokens := [{ matcher := .literal "a" (some 2), id := 10 }], id := 9 }

/-- The only ruleset, with its annotations. -/
def Grammar.emptyTextsRuleset : Ruleset where
  name := "return"
  rules := [{ patterns := [.someEmpty], id := 2 }, { patterns := [.maybeB], id := 5 }, { patterns := [.oneA], id := 8 }]
  id := 1

/-- The three alternatives, with annotations. -/
def Grammar.emptyTextsAnnotated : AnnotatedGrammar where
  grammar := { rulesets := [emptyTextsRuleset], lookup := [("return", 0)], maxId := 10 }
  terminals := [.literal "", .literal "b", .literal "a"]
  entry := 0
  warnings := [.shadowed "return" none 2, .shadowed "return" none 3]

theorem Grammar.emptyTexts_accepted : Grammar.emptyTexts.annotate? [] = .ok Grammar.emptyTextsAnnotated := by
  rfl

theorem Grammar.emptyTexts_rules : Compiled emptyTextsAnnotated (.rules 0 emptyTextsRuleset.rules) 2 0 1 :=
  @Compiled.ruleset emptyTextsAnnotated [] [] emptyTextsRuleset rfl

/-- The program of the three alternatives. -/
def Grammar.emptyTextsProgram : Program := Program.ofGrammar emptyTextsAnnotated {}

open Grammar in
/-- The run over an `a`: the empty texts are left at their exit for failure, the `b` at its exit for
success. -/
theorem Grammar.emptyTexts_run : ∃ b s t u, (Buffer.empty 0).append "a" = .ok b ∧
    Steps emptyTextsProgram b 1 13 (State.start emptyTextsProgram).resumed 10 s ∧
    Leaves emptyTextsProgram (Among 7 4) 1 b 10 s b 5 t ∧
    Steps emptyTextsProgram b 4 13 (State.start emptyTextsProgram).resumed 5 t ∧ t.frames.length = 1 ∧
    Leaves emptyTextsProgram (Among 5 1) 1 b 5 t b 4 u := by
  let p := emptyTextsProgram
  have terminals : p.terminals = #[.literal "", .literal "b", .literal "a"] := rfl
  let b : Buffer := { minRetained := 0, chunks := [⟨0, "a"⟩], length := 1 }
  have appended : (Buffer.empty 0).append "a" = .ok b := by decide
  let s : State := { State.start p with
    pending := none, frames := [{ ruleset := 0, pass := 11, fail := 12, start := 0, captureBase := 0 }] }
  have called : step p b 13 (State.start p).resumed = .next 10 s := rfl
  let entered : State := { s with loops := [⟨0, 0, 0⟩] }
  have enters : step p b 10 s = .next 9 entered := rfl
  have found : step p b 9 entered = .next 8 entered := by
    have matched : (Terminal.literal "").matchAt b entered.pos = .ok (some 0) := by decide +kernel
    show State.testTerminal p b entered 9 0 8 7 = _
    simp [State.testTerminal, terminals, matched]
  have ends : step p b 8 entered = .next 5 s := rfl
  have skips : step p b 5 s = .next 4 (s.noteFailure 1) := by
    have no : (Terminal.literal "b").matchAt b s.pos = .ok none := by decide +kernel
    show State.testTerminal p b s 5 1 4 4 = _
    simp [State.testTerminal, terminals, no]
  have failed : Leaves p (Among 7 4) 1 b 10 s b 5 s := by
    refine .on (Or.inr (by decide)) enters (.on (Or.inr (by decide)) found (.on (Or.inr (by decide)) ends ?_))
    exact .out (Nat.le_refl 1) (by decide)
  have passed : Leaves p (Among 5 1) 1 b 5 s b 4 (s.noteFailure 1) :=
    .on (Or.inr (by decide)) skips (.out (Nat.le_refl 1) (by decide))
  exact ⟨b, s, s, _, appended, .more called (.stay _ _), failed,
    .more called (.more enters (.more found (.more ends (.stay _ _)))), rfl, passed⟩

open Grammar in
/-- The `b` that may be left out is left at its exit for success where there is an `a`, as it is
always, and the alternative `a` after it is never tried. -/
theorem Grammar.sure_patterns_never_fail_for_maybeB : ∃ b t u, (Buffer.empty 0).append "a" = .ok b ∧
    Steps emptyTextsProgram b 4 13 (State.start emptyTextsProgram).resumed 5 t ∧
    Leaves emptyTextsProgram (Among 5 1) 1 b 5 t b 4 u ∧ Advanced t u ∧
    Warning.shadowed "return" none 3 ∈ emptyTextsAnnotated.warnings ∧
    Shadows emptyTextsAnnotated (.shadowed "return" none 3) .maybeB .oneA 3 ∧
    NeverRuns emptyTextsProgram 3 1 := by
  have choice : Compiled emptyTextsAnnotated (.choice [.maybeB]) 5 4 3 := emptyTexts_rules.laterRules.rule
  have shadows : Shadows emptyTextsAnnotated (.shadowed "return" none 3) .maybeB .oneA 3 :=
    @Shadows.alternative emptyTextsAnnotated [] [] emptyTextsRuleset
      [{ patterns := [.someEmpty], id := 2 }, { patterns := [.maybeB], id := 5 }] []
      { patterns := [.oneA], id := 8 } [] [] .maybeB .oneA rfl rfl rfl (by simp) rfl
  obtain ⟨b, -, t, u, appended, -, -, steps, open_, leaves⟩ := emptyTexts_run
  have reachable : Reachable emptyTextsProgram b (State.start emptyTextsProgram) :=
    .append (.start 0) appended (by cases appended; decide)
  obtain ⟨patterns, -, findings⟩ := sure_patterns_never_fail emptyTexts_accepted {}
  have never := ((patterns _ _ _ _ _ choice).1 rfl).2
  have left := never b b _ t u 13 4 4 reachable rfl steps (by rw [open_]; exact leaves)
  exact ⟨b, t, u, appended, steps, leaves, left.2, by simp [emptyTextsAnnotated], shadows,
    (findings _ _ _ _ shadows).2.2 rfl⟩

open Grammar in
/-- Empty texts are annotated as what cannot fail, and the `b` after them is found never to be
tried. But a round that matches nothing ends the loop before it has its one round, so they fail and
the `b` is tried. -/
theorem Grammar.emptyTexts_fail : Compiled emptyTextsAnnotated (.choice [.someEmpty]) 7 6 5 ∧
    Pattern.someEmpty.canFail = false ∧
    Shadows emptyTextsAnnotated (.shadowed "return" none 2) .someEmpty .maybeB 5 ∧
    ∃ b s t, (Buffer.empty 0).append "a" = .ok b ∧
      Steps emptyTextsProgram b 1 13 (State.start emptyTextsProgram).resumed 10 s ∧
      Leaves emptyTextsProgram (Among 7 4) 1 b 10 s b 5 t := by
  have shadows : Shadows emptyTextsAnnotated (.shadowed "return" none 2) .someEmpty .maybeB 5 :=
    @Shadows.alternative emptyTextsAnnotated [] [] emptyTextsRuleset [{ patterns := [.someEmpty], id := 2 }]
      [{ patterns := [.oneA], id := 8 }] { patterns := [.maybeB], id := 5 } [] [] .someEmpty .maybeB rfl rfl rfl
      (by simp) rfl
  obtain ⟨b, s, t, -, appended, steps, leaves, -⟩ := emptyTexts_run
  exact ⟨emptyTexts_rules.rule, rfl, shadows, b, s, t, appended, steps, leaves⟩

end PegFlow
