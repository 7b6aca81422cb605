/-
# PegFlow.Proofs.Machine.Balanced -- failure undoes, success balances

From every state that a parse can be in when a pattern, a token or a matcher begins, the
run leaves it at its exit for failure as if it had not begun, or at its exit for success
with the same open notes, loops, captures, lookaheads and calls, not before where it began
and with captures added at the end (`Compiled.leaves_balanced`). This holds whatever text
comes while the run waits.
-/
import PegFlow.Proofs.Machine.Copy
import PegFlow.Proofs.Machine.Stops
import PegFlow.Proofs.Program.Part

namespace PegFlow

set_option autoImplicit false

open Text Machine

/-! ## What the parts of a grammar do -/

theorem Parse.lookahead_pass {body : Parse (List Capture)} {calls : List OpenCall} {pos stop : Nat}
    {captures : List Capture} {again : List (Nat × Nat)}
    (passed : body.lookahead calls pos = .pass stop captures again) : stop = pos ∧ captures = [] := by
  unfold Parse.lookahead at passed
  cases outcome : body calls pos <;> rw [outcome] at passed <;> cases passed
  exact ⟨rfl, rfl⟩

theorem Parse.notAhead_pass {body : Parse (List Capture)} {calls : List OpenCall} {pos stop : Nat}
    {captures : List Capture} {again : List (Nat × Nat)}
    (passed : body.notAhead calls pos = .pass stop captures again) : stop = pos ∧ captures = [] := by
  unfold Parse.notAhead at passed
  cases outcome : body calls pos <;> rw [outcome] at passed <;> cases passed
  exact ⟨rfl, rfl⟩

/-- What a construct of a grammar matches, given the calls in it; rules give outputs and have no
meaning of this kind. -/
def Part.parse (T : String) (call : Nat → Parse Value) : Part → Parse (List Capture)
  | .rules _ _ => Parse.fail
  | .choice patterns => Pattern.parse T call patterns
  | .pattern tokens => Token.parse T call tokens
  | .sequence tokens => Token.parse T call tokens
  | .token t => (t.matcher.parse T call).modified T t.required t.repeated t.ahead t.notAhead t.matcher.slots
  | .quantified t => (t.matcher.parse T call).modified T t.required t.repeated false false t.matcher.slots
  | .matcher m => m.parse T call

/-- The ops of a construct follow its meaning. -/
theorem Part.does_parse {p : Program} {T : String} {n depth : Nat} {call : Nat → Parse Value}
    {terminals : List Terminal} (fits : T.utf8ByteSize ≤ Buffer.maxOffset)
    (known : ∀ (id : Nat) (t : Terminal), terminals[id]? = some t → p.terminals[id]? = some t)
    (calls : ∀ ruleset < n, ∀ pass,
      Means p T (Ready T n depth) (Returned T) Failed pass (Fragment.call ruleset) (call ruleset))
    {part : Part} (construct : part.IsConstruct) (every : part.Every (Matcher.Linked terminals n)) :
    Does p T n depth Failed part.fragment (part.parse T call) := by
  cases part with
  | rules index rs => exact construct.elim
  | choice patterns => exact Pattern.does fits known calls patterns every
  | pattern tokens =>
      have tokens_ := Token.does fits known calls tokens every
      rw [Part.fragment]
      by_cases short : tokens.length < 2
      · rw [if_pos short]
        exact tokens_.2 short
      · rw [if_neg short]
        exact tokens_.1.atomically
  | sequence tokens => exact construct.elim
  | token t => exact (Matcher.does fits known calls t.matcher every).modified _ _ _ _ _
  | quantified t => exact (Matcher.does fits known calls t.matcher every).modified _ _ _ _ _
  | matcher m => exact Matcher.does fits known calls m every

/-- A construct has a meaning that its ops follow; a token that only looks ahead matches nothing. -/
theorem Part.does {p : Program} {T : String} {n depth : Nat} {call : Nat → Parse Value}
    {terminals : List Terminal} (fits : T.utf8ByteSize ≤ Buffer.maxOffset)
    (known : ∀ (id : Nat) (t : Terminal), terminals[id]? = some t → p.terminals[id]? = some t)
    (calls : ∀ ruleset < n, ∀ pass,
      Means p T (Ready T n depth) (Returned T) Failed pass (Fragment.call ruleset) (call ruleset))
    {part : Part} (construct : part.IsConstruct) (every : part.Every (Matcher.Linked terminals n)) :
    ∃ q, Does p T n depth Failed part.fragment q ∧
      (part.IsPredicate → ∀ calls pos stop captures again,
        q calls pos = .pass stop captures again → stop = pos ∧ captures = []) := by
  refine ⟨_, Part.does_parse fits known calls construct every, ?_⟩
  cases part with
  | token t =>
      intro predicate calls pos stop captures again passed
      rw [Part.parse] at passed
      unfold Parse.modified at passed
      split at passed
      · exact Parse.lookahead_pass passed
      · rename_i ahead
        split at passed
        · exact Parse.notAhead_pass passed
        · rename_i notAhead
          simp [Part.IsPredicate, Token.isPredicate, ahead, notAhead] at predicate
  | _ => exact fun predicate => predicate.elim

/-! ## Text that comes meanwhile -/

section

variable {g : AnnotatedGrammar} {library : Library} {b b' : Buffer} {P : String} {op o : Nat} {s t : State}

theorem Follows.pieces {pieces : List String} (follows : Follows g library b P op s)
    (appended : pieces.foldlM Buffer.append b = .ok b') (fits : b'.length ≤ Buffer.maxOffset) :
    ∃ more, (b.closed = true → more = "") ∧ Follows g library b' (P ++ more) op s := by
  induction pieces generalizing b P with
  | nil =>
      cases appended
      exact ⟨"", fun _ => rfl, by rwa [String.append_empty]⟩
  | cons text rest ih =>
      rw [List.foldlM_cons] at appended
      obtain ⟨next, first, others⟩ := Except.bind_eq_ok appended
      have isOpen := Buffer.isOpen_of_append first
      obtain ⟨next', first', stillOpen, -, shows⟩ := Buffer.append_of_open isOpen text
      cases first.symm.trans first'
      obtain ⟨b'', all, -, final⟩ := Buffer.foldlM_append_of_open stillOpen (shows P follows.shows) rest
      cases others.symm.trans all
      have fits' : (P ++ text).utf8ByteSize ≤ Buffer.maxOffset := by
        rw [final.length_eq, String.utf8ByteSize_append] at fits
        omega
      obtain ⟨more, -, later⟩ := ih (follows.append isOpen first fits') others
      refine ⟨text ++ more, fun closed => ?_, by rwa [← String.append_assoc]⟩
      cases isOpen.symm.trans closed

/-- More text leaves a run where it follows the runs over whole texts. -/
theorem Follows.fed {pieces : List String} {ended : Bool} (follows : Follows g library b P op s)
    (fed : b.fill pieces ended = .ok b') (fits : b'.length ≤ Buffer.maxOffset) :
    ∃ more, (b.closed = true → more = "") ∧ Follows g library b' (P ++ more) op s := by
  obtain ⟨c, appended, rest⟩ := Except.bind_eq_ok fed
  cases ended with
  | false =>
      cases rest
      exact follows.pieces appended fits
  | true =>
      cases rest
      obtain ⟨more, closed, there⟩ := follows.pieces appended fits
      exact ⟨more, closed, there.close⟩

/-- What a run does up to where it leaves a part, with text that comes meanwhile, it does over
the whole text there is in the end. -/
theorem Machine.Leaves.whole (linked : g.Linked) {inside : Nat → Prop} {depth : Nat}
    (leaves : Leaves (Program.ofGrammar g library) inside depth b op s b' o t)
    (follows : Follows g library b P op s) (idle : s.pending = none) (status : s.status = .running) :
    ∃ more, (b.closed = true → more = "") ∧ (P ++ more).utf8ByteSize ≤ Buffer.maxOffset ∧
      Leaves (Program.ofGrammar g library) inside depth (Buffer.complete (P ++ more)) op s
        (Buffer.complete (P ++ more)) o t := by
  induction leaves generalizing P with
  | out shallow outside => exact ⟨"", fun _ => rfl, follows.fits_whole, .out shallow outside⟩
  | @on b b' op op' o s s' t inner taken _ ih =>
      have running := (step_within (Program.ofGrammar g library) b op s).running op' s' taken
      obtain ⟨more, ended, fits, rest⟩ := ih (follows.step linked taken) (running.1.trans idle)
        (running.2.trans status)
      refine ⟨more, ended, fits, .on inner ?_ rest⟩
      rcases follows.window linked ended fits with same | ⟨-, halted⟩ | ⟨-, _, _, _, freed⟩
      · exact same.symm.trans taken
      · cases halted.symm.trans taken
      · cases freed.symm.trans taken
  | @waits b b' b'' op op' o s s' t pieces ended inner halt pending fed fits _ ih =>
      rcases follows.halted linked halt with ⟨isOpen, rfl⟩ | ⟨-, rfl⟩ | ⟨-, rfl⟩
      · cases pending
        rw [resumed_waitingAt idle status] at ih
        obtain ⟨first, -, there⟩ := follows.fed fed fits
        obtain ⟨more, -, whole, rest⟩ := ih there idle status
        rw [String.append_assoc] at whole rest
        refine ⟨first ++ more, fun closed => ?_, whole, rest⟩
        cases isOpen.symm.trans closed
      · cases idle.symm.trans pending
      · cases idle.symm.trans pending

end

/-! ## How a part is left -/

/-- The frame but for the note that its ruleset was called again. -/
def Frame.plain (f : Frame) : Frame := { f with leftRecursive := false }

/-- What is open is as it was, but for notes that rulesets were called again. -/
structure SameOpen (s s' : State) : Prop where
  marks : s'.marks = s.marks
  captureStarts : s'.captureStarts = s.captureStarts
  loops : s'.loops = s.loops
  quiet : s'.quiet = s.quiet
  frames : s'.frames.map Frame.plain = s.frames.map Frame.plain

/-- As if nothing had happened. -/
structure Undone (s s' : State) : Prop extends SameOpen s s' where
  pos : s'.pos = s.pos
  captures : s'.captures = s.captures

/-- Moved forward or not at all, with captures added at the end. -/
structure Advanced (s s' : State) : Prop extends SameOpen s s' where
  forward : s.pos ≤ s'.pos
  captures : s.captures.toList <+: s'.captures.toList

theorem Kept.sameOpen {s s' : State} {again : List (Nat × Nat)} (kept : Kept (s.noted again) s') :
    SameOpen s s' where
  marks := kept.marks
  captureStarts := kept.captureStarts
  loops := kept.loops
  quiet := kept.quiet
  frames := by
    rw [kept.frames, State.noted, List.map_map]
    rfl

theorem Failed.undone {s s' : State} {again : List (Nat × Nat)} (failed : Failed (s.noted again) s') :
    Undone s s' where
  toSameOpen := failed.kept.sameOpen
  pos := failed.pos
  captures := Array.toList_inj.1 failed.captures

theorem Passed.advanced {T : String} {s s' : State} {again : List (Nat × Nat)} {stop : Nat}
    {captures : List Capture} (passed : Passed T (s.noted again) stop captures s') : Advanced s s' where
  toSameOpen := passed.kept.sameOpen
  forward := passed.pos ▸ passed.forward
  captures := ⟨captures, passed.captures.symm⟩

/-- Where a construct begins and is left, whatever text came meanwhile, it is left as what it
matches says. -/
theorem Compiled.leaves_parse {a : AnnotatedGrammar} {library : Library} (linked : a.Linked) {part : Part}
    {base pass fail : Nat} (compiled : Compiled a part base pass fail) (construct : part.IsConstruct)
    {b b' : Buffer} {P : String} {s t : State} {o : Nat}
    (follows : Follows a library b P (part.fragment base pass fail).entry s) (idle : s.pending = none)
    (status : s.status = .running)
    (leaves : Leaves (Program.ofGrammar a library) (Among base part.fragment.size) s.frames.length b
      (part.fragment base pass fail).entry s b' o t) :
    ∃ (T : String) (call : Nat → Parse Value),
      (∃ stop captures again, part.parse T call s.calls s.pos = .pass stop captures again ∧
        o = pass ∧ Passed T (s.noted again) stop captures t) ∨
      ∃ again, part.parse T call s.calls s.pos = .fail again ∧ o = fail ∧ Failed (s.noted again) t := by
  obtain ⟨held, passBefore, failBefore, every⟩ := compiled.stands library linked.every
    ⟨a.entry, rfl, linked.entry⟩
  obtain ⟨more, ended, fits, whole⟩ := leaves.whole linked follows idle status
  have visited := (follows.path more ended fits).visited (Program.ofGrammar_closed a library)
    (Program.size_entries a library) (a.first_visited library (P ++ more))
  have extended := Program.withCopy_extends (Program.ofGrammar a library) part.fragment
  have does := Part.does_parse fits (fun id t known => by
      rw [extended.terminals]
      exact (List.getElem?_toArray ..).trans known)
    (AnnotatedGrammar.call_means_of_extends linked fits extended
      (a.grammar.rulesets.length * ((P ++ more).utf8ByteSize + 1))) construct every
  have left := whole.of_means (Program.ofGrammar_closed a library) (Part.fragment_movable construct)
    (Part.fragment_inner construct) held (fun inside => by have := inside.1; omega)
    (fun inside => by have := inside.1; omega) does visited
  refine ⟨P ++ more, a.grammar.call library (P ++ more)
    (a.grammar.rulesets.length * ((P ++ more).utf8ByteSize + 1)), ?_⟩
  generalize part.parse (P ++ more) _ s.calls s.pos = outcome at left ⊢
  cases outcome with
  | pass stop captures again => exact Or.inl ⟨stop, captures, again, rfl, left⟩
  | fail again => exact Or.inr ⟨again, rfl, left⟩
  | error f => exact left.elim
  | deep => exact left.elim

/-- From every state that a parse can be in when a construct of the grammar begins: if the run
leaves it, whatever text came meanwhile, it leaves it at its exit for success with what was
open as it was, no earlier position and more captures or the same ones, which for a token that
only looks ahead are the same at the same position, or at its exit for failure as if nothing had
happened. -/
theorem Compiled.leaves_balanced {g : Grammar} {callbacks : List String} {a : AnnotatedGrammar}
    (accepted : g.annotate? callbacks = .ok a) (library : Library) {part : Part} {base pass fail : Nat}
    (compiled : Compiled a part base pass fail) (construct : part.IsConstruct) {b b' : Buffer}
    {s₀ s t : State} {first n o : Nat} (reachable : Reachable (Program.ofGrammar a library) b s₀)
    (pending : s₀.pending = some first)
    (steps : Steps (Program.ofGrammar a library) b n first s₀.resumed
      (part.fragment base pass fail).entry s)
    (leaves : Leaves (Program.ofGrammar a library) (Among base part.fragment.size) s.frames.length b
      (part.fragment base pass fail).entry s b' o t) :
    (o = pass ∧ Advanced s t ∧ (part.IsPredicate → t.pos = s.pos ∧ t.captures = s.captures)) ∨
      (o = fail ∧ Undone s t) := by
  have linked := Grammar.annotate?_linked accepted
  obtain ⟨held, passBefore, failBefore, every⟩ := compiled.stands library linked.every
    ⟨a.entry, rfl, linked.entry⟩
  obtain ⟨P, rests⟩ := reachable.rests linked
  have follows := (rests.goesOn first pending).steps linked steps
  have running := steps.running rfl rfl
  obtain ⟨more, ended, fits, whole⟩ := leaves.whole linked follows running.1 running.2
  have visited := (follows.path more ended fits).visited (Program.ofGrammar_closed a library)
    (Program.size_entries a library) (a.first_visited library (P ++ more))
  have extended := Program.withCopy_extends (Program.ofGrammar a library) part.fragment
  obtain ⟨q, does, predicate⟩ := Part.does fits (fun id t known => by
      rw [extended.terminals]
      exact (List.getElem?_toArray ..).trans known)
    (AnnotatedGrammar.call_means_of_extends linked fits extended _) construct every
  have left := whole.of_means (Program.ofGrammar_closed a library) (Part.fragment_movable construct)
    (Part.fragment_inner construct) held (fun inside => by have := inside.1; omega)
    (fun inside => by have := inside.1; omega) does visited
  cases outcome : q s.calls s.pos with
  | pass stop captures again =>
      rw [outcome] at left
      obtain ⟨rfl, passed⟩ := left
      refine Or.inl ⟨rfl, passed.advanced, fun looks => ?_⟩
      obtain ⟨rfl, rfl⟩ := predicate looks _ _ _ _ _ outcome
      refine ⟨passed.pos, Array.toList_inj.1 ?_⟩
      rw [passed.captures, List.append_nil]
      rfl
  | fail again =>
      rw [outcome] at left
      obtain ⟨rfl, failed⟩ := left
      exact Or.inr ⟨rfl, failed.undone⟩
  | error f =>
      rw [outcome] at left
      exact left.elim
  | deep =>
      rw [outcome] at left
      exact left.elim

/-- Two letters in a row. -/
def Grammar.twoLetters : Grammar :=
  Grammar.empty.addRuleset "return" [.ofPatterns [.ofTokens [.literal "a", .literal "b"]] none]

/-- The letters, with the terminals that they are. -/
def Grammar.twoLettersTokens : List Token :=
  [{ matcher := .literal "a" (some 0), id := 4 }, { matcher := .literal "b" (some 1), id := 5 }]

/-- The only ruleset, with its annotations. -/
def Grammar.twoLettersRuleset : Ruleset :=
  { name := "return", rules := [{ patterns := [{ tokens := twoLettersTokens, id := 3 }], id := 2 }], id := 1 }

/-- Two letters in a row, with annotations. -/
def Grammar.twoLettersAnnotated : AnnotatedGrammar where
  grammar := { rulesets := [twoLettersRuleset], lookup := [("return", 0)], maxId := 5 }
  terminals := [.literal "a", .literal "b"]
  entry := 0
  warnings := []

theorem Grammar.twoLetters_accepted : Grammar.twoLetters.annotate? [] = .ok Grammar.twoLettersAnnotated :=
  rfl

theorem Grammar.twoLetters_compiled :
    Compiled Grammar.twoLettersAnnotated (.pattern Grammar.twoLettersTokens) 3 2 1 :=
  .pattern (.rule (@Compiled.ruleset Grammar.twoLettersAnnotated [] [] Grammar.twoLettersRuleset rfl))

/-- The second letter comes while the run waits for it, and is another one than the grammar
has: the first letter is given back. -/
theorem Compiled.leaves_balanced_at_second_letter : ∃ b b' s t,
    (Buffer.empty 2).append "a" = .ok b ∧ b.fill ["c"] false = .ok b' ∧
    Steps (Program.ofGrammar Grammar.twoLettersAnnotated {}) b 1 10
      (State.start (Program.ofGrammar Grammar.twoLettersAnnotated {})).resumed 7 s ∧
    Leaves (Program.ofGrammar Grammar.twoLettersAnnotated {}) (Among 3 5) 1 b 7 s b' 1 t ∧
    Undone s t := by
  let p := Program.ofGrammar Grammar.twoLettersAnnotated {}
  have terminals : p.terminals = #[.literal "a", .literal "b"] := rfl
  let b : Buffer := { minRetained := 2, chunks := [⟨0, "a"⟩], length := 1 }
  let b' : Buffer := { minRetained := 2, chunks := [⟨0, "a"⟩, ⟨1, "c"⟩], length := 2 }
  have appended : (Buffer.empty 2).append "a" = .ok b := by decide
  have fed : b.fill ["c"] false = .ok b' := by decide +kernel
  let s : State :=
    { State.start p with
      pending := none, frames := [{ ruleset := 0, pass := 8, fail := 9, start := 0, captureBase := 0 }] }
  have called : step p b 10 (State.start p).resumed = .next 7 s := rfl
  have marked : step p b 7 s = .next 6 s.mark := rfl
  let tried : State := { s.mark with pos := 1 }
  have first : step p b 6 s.mark = .next 5 tried := by
    have matched : (Terminal.literal "a").matchAt b s.mark.pos = .ok (some 1) := by decide +kernel
    show State.testTerminal p b s.mark 6 0 5 3 = _
    rw [State.testTerminal, terminals]
    simp only [List.getElem?_toArray, List.getElem?_cons_zero, matched]
    rfl
  have waits : step p b 5 tried = .halt (tried.waitingAt 5) := by
    have needs : (Terminal.literal "b").matchAt b tried.pos = .error .needInput := by decide +kernel
    show State.testTerminal p b tried 5 1 4 3 = _
    simp [State.testTerminal, terminals, needs, State.waitingAt]
  have differs : step p b' 5 tried = .next 3 (tried.noteFailure 1) := by
    have no : (Terminal.literal "b").matchAt b' tried.pos = .ok none := by decide +kernel
    show State.testTerminal p b' tried 5 1 4 3 = _
    simp [State.testTerminal, terminals, no]
  obtain ⟨t, back, shallow⟩ :
      ∃ t, step p b' 3 (tried.noteFailure 1) = .next 1 t ∧ t.frames.length ≤ 1 := ⟨_, rfl, Nat.le_refl 1⟩
  have leaves : Leaves p (Among 3 5) 1 b 7 s b' 1 t := by
    refine .on (Or.inr (by decide)) marked (.on (Or.inr (by decide)) first ?_)
    refine .waits (Or.inr (by decide)) waits rfl fed (by decide) ?_
    refine .on (Or.inr (by decide)) differs (.on (Or.inr (by decide)) back ?_)
    exact .out shallow (by decide)
  have reachable : Reachable p b (State.start p) := .append (.start 2) appended (by decide)
  have steps : Steps p b 1 10 (State.start p).resumed 7 s := .more called (.stay _ _)
  rcases leaves_balanced Grammar.twoLetters_accepted {} Grammar.twoLetters_compiled trivial reachable rfl steps
    leaves with ⟨passed, -⟩ | ⟨-, undone⟩
  · cases passed
  · exact ⟨b, b', s, t, appended, fed, steps, leaves, undone⟩

end PegFlow
