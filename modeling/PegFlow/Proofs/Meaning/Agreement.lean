/-
# PegFlow.Proofs.Meaning.Agreement -- programs mean what their grammars mean

The program of an accepted grammar, run over a whole text, passes with a value at an
offset, fails, or stops at a fault exactly when the grammar means so
(`Program.run_iff_meaning`), as long as fewer lookaheads are open at once than the machine
can count. In particular the meaning never exhausts the depth that it gives to calls. Here
as in all that follows a text is at most as long as offsets go.
-/
import PegFlow.Grammar.Build
import PegFlow.Proofs.Machine.Course

namespace PegFlow

set_option autoImplicit false

open Machine

namespace AnnotatedGrammar

variable {g : AnnotatedGrammar} {library : Library} {T : String}

theorem run_eq_settle : run (Program.ofGrammar g library) (Buffer.complete T)
      (State.start (Program.ofGrammar g library)) =
    State.settle (Program.ofGrammar g library) (Buffer.complete T) (Program.ofGrammar g library).root
      (g.first library) := rfl

/-- How a run over a whole text ends, by what the grammar means, unless lookaheads cannot be
counted on its way. -/
theorem run_ends (linked : g.Linked) (fits : T.utf8ByteSize ≤ Buffer.maxOffset) {s : State}
    {fault : Option Fault} (given : run (Program.ofGrammar g library) (Buffer.complete T)
      (State.start (Program.ofGrammar g library)) = (s, fault)) :
    (Overflows (Program.ofGrammar g library) T (Program.ofGrammar g library).root (g.first library) ∧
      fault = some (.internal .noPredicate)) ∨
    match g.meaning library T with
    | .pass stop v _ => fault = none ∧ s.status = .passed ∧ s.output = some v ∧ s.pos = stop
    | .fail _ => fault = none ∧ s.status = .failed
    | .error f => fault = some f
    | .deep => False := by
  obtain ⟨acceptAt, accept, reject, ends⟩ := g.ends library linked fits
  rw [run_eq_settle] at given
  rcases ends with ⟨op, s', path, range, uncounted⟩ | arrives
  · obtain ⟨t, stopped, -⟩ := uncounted.step_eq range (Buffer.complete T)
    rw [path.settle_eq, State.settle, stopped] at given
    cases given
    exact Or.inl ⟨⟨op, s', path, range, uncounted⟩, rfl⟩
  · refine Or.inr ?_
    cases meaning : g.meaning library T with
    | pass stop v again =>
        rw [meaning] at arrives
        obtain ⟨s', path, done, result⟩ := arrives
        rw [path.settle_eq, State.settle] at given
        simp only [step, accept, result, Option.getD_some] at given
        cases given
        exact ⟨rfl, rfl, rfl, done.pos⟩
    | fail again =>
        rw [meaning] at arrives
        obtain ⟨s', path, -⟩ := arrives
        rw [path.settle_eq, State.settle] at given
        simp only [step, reject] at given
        cases given
        exact ⟨rfl, rfl⟩
    | error f =>
        rw [meaning] at arrives
        obtain ⟨op, s', s'', path, -, fault⟩ := arrives
        rw [path.settle_eq, State.settle, fault] at given
        cases given
        rfl
    | deep =>
        rw [meaning] at arrives
        exact arrives

end AnnotatedGrammar

/-- The program of an accepted grammar passes with a value at an offset, fails, or stops at
a fault exactly when that is what the grammar means, where fewer lookaheads are open at once
than can be counted. -/
theorem Program.run_iff_meaning {g : Grammar} {callbacks : List String} {a : AnnotatedGrammar}
    (accepted : g.annotate? callbacks = .ok a) (library : Library) (T : String)
    (fits : T.utf8ByteSize ≤ Buffer.maxOffset)
    (shallow : Shallow a (ofGrammar a library) (Buffer.complete T)) :
    ∃ s fault,
      run (ofGrammar a library) (Buffer.complete T) (State.start (ofGrammar a library)) = (s, fault) ∧
      (∀ v stop, (fault = none ∧ s.status = .passed ∧ s.output = some v ∧ s.pos = stop) ↔
        ∃ again, a.meaning library T = .pass stop v again) ∧
      ((fault = none ∧ s.status = .failed) ↔ ∃ again, a.meaning library T = .fail again) ∧
      (∀ f, fault = some f ↔ a.meaning library T = .error f) ∧
      a.meaning library T ≠ .deep := by
  obtain ⟨⟨s, fault⟩, given⟩ : ∃ r, run (ofGrammar a library) (Buffer.complete T)
    (State.start (ofGrammar a library)) = r := ⟨_, rfl⟩
  refine ⟨s, fault, given, ?_⟩
  have ends := (AnnotatedGrammar.run_ends (Grammar.annotate?_linked accepted) fits given).resolve_left
    fun overflows => shallow.not_overflows (.here _ _) overflows.1
  cases meaning : a.meaning library T with
  | pass stop v again =>
      rw [meaning] at ends
      obtain ⟨rfl, status, output, rfl⟩ := ends
      simp [status, output, and_comm]
  | fail again =>
      rw [meaning] at ends
      obtain ⟨rfl, status⟩ := ends
      simp [status]
  | error f =>
      rw [meaning] at ends
      simp [ends]
  | deep =>
      rw [meaning] at ends
      exact ends.elim

/-- Sums of digits, left recursive: `return` is a sum, and a sum is a sum, a plus sign and
a digit, or a digit. -/
def Grammar.sums : Grammar :=
  (Grammar.empty.addRuleset "return" [.ofPatterns [.ofTokens [.captureRef "sum"]] (some (.back 1))]).addRuleset
    "sum" [.ofPatterns [.ofTokens [.captureRef "sum", .literal "+", .capture [.ofTokens [.charClass "0-9"]]]]
      (some (.array [.back 1, .back 2])), .ofPatterns [.ofTokens [.charClass "0-9"]] none]

theorem Grammar.sums_accepted : ∃ a, sums.annotate? [] = .ok a :=
  Except.eq_ok_of_isSome (by decide +kernel)

/-- The whole of a sum of two digits matches. -/
theorem Program.run_iff_meaning_of_sum : ∃ a s v, Grammar.sums.annotate? [] = .ok a ∧
    "1+2".utf8ByteSize ≤ Buffer.maxOffset ∧ Shallow a (ofGrammar a {}) (Buffer.complete "1+2") ∧
    run (ofGrammar a {}) (Buffer.complete "1+2") (State.start (ofGrammar a {})) = (s, none) ∧
    s.status = .passed ∧ s.output = some v ∧ s.pos = 3 ∧
    ∃ again, a.meaning {} "1+2" = .pass 3 v again := by
  have sum : (Grammar.sums.annotate? []).toOption.bind (fun a =>
      (a.meaning {} "1+2").stop?.map fun stop => (stop, deepest a)) = some (3, 0) := by decide +kernel
  obtain ⟨a, found, both⟩ := Option.bind_eq_some_iff.1 sum
  obtain ⟨_, stop, same⟩ := Option.map_eq_some_iff.1 both
  obtain ⟨rfl, flat⟩ := Prod.mk.inj same
  have accepted := Except.toOption_eq_some_iff.1 found
  obtain ⟨v, again, meaning⟩ := Outcome.stop?_eq_some_iff.1 stop
  have shallow : Shallow a (ofGrammar a {}) (Buffer.complete "1+2") :=
    .of_length (Grammar.annotate?_linked accepted) (by decide) (by rw [flat, Nat.zero_mul]; decide)
  obtain ⟨s, fault, given, passes, -⟩ := run_iff_meaning accepted {} "1+2" (by decide) shallow
  obtain ⟨rfl, status, output, pos⟩ := (passes v 3).2 ⟨again, meaning⟩
  exact ⟨a, s, v, accepted, by decide, shallow, given, status, output, pos, again, meaning⟩

end PegFlow
