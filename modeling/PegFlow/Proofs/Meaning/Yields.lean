/-
# PegFlow.Proofs.Meaning.Yields -- what matches record

A property of lists of captures holds of what every match of a parse records (`Parse.Yields`).
There is one lemma for each way to put parses together.
-/
import PegFlow.Proofs.Meaning.Parse

namespace PegFlow

set_option autoImplicit false

/-- The captures of the match, if it is one, are so. -/
def Outcome.Yields (P : List Capture → Prop) (o : Outcome (List Capture)) : Prop :=
  ∀ stop captures again, o = .pass stop captures again → P captures

namespace Outcome.Yields

variable {α : Type} {P Q : List Capture → Prop}

theorem pass {stop : Nat} {captures : List Capture} {again : List (Nat × Nat)} (h : P captures) :
    (Outcome.pass stop captures again).Yields P := by
  rintro _ _ _ ⟨⟩
  exact h

theorem fail {again : List (Nat × Nat)} : (Outcome.fail again).Yields P := nofun

theorem imp {o : Outcome (List Capture)} (h : o.Yields P) (weaker : ∀ captures, P captures → Q captures) :
    o.Yields Q := fun stop captures again same => weaker captures (h stop captures again same)

theorem noting {o : Outcome (List Capture)} (h : o.Yields P) (before : List (Nat × Nat)) :
    (o.noting before).Yields P := by
  cases o with
  | pass stop captures again => exact pass (h stop captures again rfl)
  | fail again => exact fail
  | error f => exact nofun
  | deep => exact nofun

theorem either {o : Outcome α} {passed : Nat → α → Outcome (List Capture)} {failed : Outcome (List Capture)}
    (pass : ∀ stop v again, o = .pass stop v again → (passed stop v).Yields P) (fail : failed.Yields P) :
    (o.either passed failed).Yields P := by
  cases o with
  | pass stop v again => exact (pass stop v again rfl).noting again
  | fail again => exact fail.noting again
  | error f => exact nofun
  | deep => exact nofun

theorem map {o : Outcome (List Capture)} {f : Nat → List Capture → List Capture} (h : o.Yields P)
    (changed : ∀ stop captures, P captures → Q (f stop captures)) : (o.map f).Yields Q :=
  either (fun stop captures again same => pass (changed stop captures (h stop captures again same))) fail

end Outcome.Yields

/-- The captures of each of its matches are so. -/
def Parse.Yields (P : List Capture → Prop) (q : Parse (List Capture)) : Prop :=
  ∀ calls pos, (q calls pos).Yields P

namespace Parse.Yields

variable {T : String} {P Q R : List Capture → Prop} {q r : Parse (List Capture)}

theorem pass (none : P []) : Yields P Parse.pass := fun _ _ => .pass none

theorem fail : Yields P Parse.fail := fun _ _ => .fail

theorem imp (h : Yields P q) (weaker : ∀ captures, P captures → Q captures) : Yields Q q :=
  fun calls pos => (h calls pos).imp weaker

theorem terminal (none : P []) (t : Terminal) : Yields P (Parse.terminal T t) := by
  intro calls pos
  rw [Parse.terminal]
  split
  · exact .pass none
  · exact .fail

theorem orElse (one : Yields P q) (other : Yields P r) : Yields P (q.orElse r) := fun calls pos =>
  .either (fun stop captures again same => .pass (one calls pos stop captures again same)) (other calls pos)

theorem andThen (one : Yields P q) (other : Yields Q r)
    (both : ∀ first second, P first → Q second → R (first ++ second)) : Yields R (q.andThen r) :=
  fun calls pos => .either (fun stop captures again same => (other calls stop).map fun _ _ later =>
    both _ _ (one calls pos stop captures again same) later) .fail

theorem lookahead (none : P []) : Yields P q.lookahead := fun _ _ => .either (fun _ _ _ _ => .pass none) .fail

theorem notAhead (none : P []) : Yields P q.notAhead := fun _ _ => .either (fun _ _ _ _ => .fail) (.pass none)

theorem optional {slots : List Nat} (h : Yields P q) (nulls : P (Capture.nulls slots)) :
    Yields P (q.optional slots) := fun calls pos =>
  .either (fun stop captures again same => .pass (h calls pos stop captures again same)) (.pass nulls)

/-- Every round adds what the body records to what the later rounds record. -/
theorem rounds (h : Yields P q) (none : Q [])
    (more : ∀ first others, P first → Q others → Q (first ++ others)) (least fuel count : Nat) :
    Yields Q (q.rounds least fuel count) := by
  induction fuel generalizing count with
  | zero => exact fun _ _ => nofun
  | succ fuel ih =>
      intro calls pos
      have ended : (ended least count pos).Yields Q := by
        rw [Parse.ended]
        split
        · exact .pass none
        · exact .fail
      refine .either (fun stop captures again same => ?_) ended
      split
      · exact ended
      · exact (ih (count + 1) calls stop).map fun _ _ later =>
          more _ _ (h calls pos stop captures again same) later

/-- A token that only looks ahead records nothing, one that is repeated what all rounds do, and one that
is skipped a null in each of its slots. -/
theorem modified {slots : List Nat} {required repeated ahead notAhead : Bool} (h : Yields P q)
    (looks : (ahead || notAhead) = true → P [])
    (repeats : repeated = true → P [] ∧ ∀ first others, P first → P others → P (first ++ others))
    (nulls : P (Capture.nulls slots)) : Yields P (q.modified T required repeated ahead notAhead slots) := by
  rw [Parse.modified]
  split
  · rename_i isAhead
    exact lookahead (looks (by rw [isAhead, Bool.true_or]))
  · split
    · rename_i isNotAhead
      exact Yields.notAhead (looks (by rw [isNotAhead, Bool.or_true]))
    · split
      · rename_i again
        exact h.rounds (repeats again).1 (repeats again).2 _ _ _
      · split
        · exact h
        · exact h.optional nulls

theorem captured {slot : Nat} (h : Yields P q)
    (own : ∀ captures v, P captures → Q (captures ++ [⟨slot, v⟩])) : Yields Q (q.captured T slot) :=
  fun calls pos => (h calls pos).map fun _ captures inside => own captures _ inside

theorem recorded {v : Parse Value} {slot : Nat} (own : ∀ v, P [⟨slot, v⟩]) : Yields P (v.recorded slot) :=
  fun _ _ => .either (fun _ _ _ _ => .pass (own _)) .fail

theorem silent {v : Parse Value} (none : P []) : Yields P v.silent :=
  fun _ _ => .either (fun _ _ _ _ => .pass none) .fail

end Parse.Yields

end PegFlow
