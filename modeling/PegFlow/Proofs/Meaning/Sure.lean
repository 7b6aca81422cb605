/-
# PegFlow.Proofs.Meaning.Sure -- what always matches never fails

The parse of a sure part of a grammar does not fail, whatever calls are under way: it passes,
or a template in it gives a fault (`Matcher.neverFails`, `Token.neverFails`,
`Pattern.neverFails`). There is one lemma for each operation on parses that a sure part is put
together by; a repetition with nothing to insist on passes when a round fails.
-/
import PegFlow.Proofs.Grammar.Sure
import PegFlow.Proofs.Meaning.Grammar

namespace PegFlow

set_option autoImplicit false

/-- The outcome is no failure. -/
def Outcome.IsNoFailure {α : Type} (o : Outcome α) : Prop := ∀ again, o ≠ .fail again

namespace Outcome.IsNoFailure

variable {α β : Type}

theorem noting {o : Outcome α} (h : o.IsNoFailure) (before : List (Nat × Nat)) :
    (o.noting before).IsNoFailure := by
  intro again failed
  cases o with
  | fail again' => exact h again' rfl
  | pass | error | deep => cases failed

/-- Of two ways to go on the one after a failure counts only if there may be one. -/
theorem either {o : Outcome α} {passed : Nat → α → Outcome β} {failed : Outcome β}
    (onward : ∀ stop v, (passed stop v).IsNoFailure) (otherwise_ : o.IsNoFailure ∨ failed.IsNoFailure) :
    (o.either passed failed).IsNoFailure := by
  cases o with
  | pass stop v again => exact (onward stop v).noting again
  | fail again =>
      rcases otherwise_ with none | other
      · exact absurd rfl (none again)
      · exact other.noting again
  | error f => exact nofun
  | deep => exact nofun

theorem map {o : Outcome α} (h : o.IsNoFailure) (f : Nat → α → β) : (o.map f).IsNoFailure :=
  either (fun _ _ => nofun) (Or.inl h)

end Outcome.IsNoFailure

/-- The parse passes, or gives a fault. -/
def Parse.NeverFails {α : Type} (q : Parse α) : Prop := ∀ calls pos, (q calls pos).IsNoFailure

namespace Parse.NeverFails

variable {q r : Parse (List Capture)} {T : String}

theorem pass : Parse.pass.NeverFails := fun _ _ => nofun

theorem emptyText : (Parse.terminal T (.literal "")).NeverFails := by
  intro calls pos
  have begins : Text.octets "" <+: (Text.octets T).drop pos := List.nil_prefix
  rw [Parse.terminal, Terminal.sizeAt, if_pos begins]
  intro again failed
  cases failed

theorem orElse (either_ : q.NeverFails ∨ r.NeverFails) : (q.orElse r).NeverFails := fun calls pos =>
  .either (fun _ _ => nofun) (either_.imp (· calls pos) (· calls pos))

theorem andThen (one : q.NeverFails) (other : r.NeverFails) : (q.andThen r).NeverFails := fun calls pos =>
  .either (fun middle _ => (other calls middle).map _) (Or.inl (one calls pos))

theorem lookahead (body : q.NeverFails) : q.lookahead.NeverFails := fun calls pos =>
  .either (fun _ _ => nofun) (Or.inl (body calls pos))

theorem optional (slots : List Nat) (q : Parse (List Capture)) : (q.optional slots).NeverFails := fun _ _ =>
  .either (fun _ _ => nofun) (Or.inr nofun)

theorem rounds (q : Parse (List Capture)) (fuel count : Nat) : (Parse.rounds 0 q fuel count).NeverFails := by
  have ended : ∀ count pos, (Parse.ended 0 count pos).IsNoFailure := by
    intro count pos
    rw [Parse.ended, if_pos (Nat.zero_le count)]
    exact nofun
  induction fuel generalizing count with
  | zero => exact fun _ _ => nofun
  | succ fuel ih =>
      intro calls pos
      refine .either (fun stop captures => ?_) (Or.inr (ended count pos))
      split
      · exact ended count pos
      · exact (ih (count + 1) calls stop).map _

theorem captured (slot : Nat) (body : q.NeverFails) : (q.captured T slot).NeverFails := fun calls pos =>
  (body calls pos).map _

theorem modified {required repeated ahead : Bool} (slots : List Nat)
    (insists : required = true → repeated = false ∧ q.NeverFails) :
    (q.modified T required repeated ahead false slots).NeverFails := by
  have counted : (if repeated then q.loop T (if required then 1 else 0)
      else if required then q else q.optional slots).NeverFails := by
    cases required with
    | true =>
        obtain ⟨rfl, body⟩ := insists rfl
        exact body
    | false => cases repeated with
      | true => exact rounds q (T.utf8ByteSize + 1) 0
      | false => exact optional slots q
  cases ahead with
  | true => exact lookahead counted
  | false => exact counted

end Parse.NeverFails

section

variable {T : String} {call : Nat → Parse Value}

mutual

theorem Matcher.neverFails : ∀ m : Matcher, m.sure = true → (m.parse T call).NeverFails
  | .literal text _, sure => by
      rw [Matcher.sure, beq_iff_eq] at sure
      rw [Matcher.parse, sure]
      exact .emptyText
  | .capture patterns slot, sure => by
      rw [Matcher.sure] at sure
      rw [Matcher.parse]
      split
      · rename_i plain
        unfold Pattern.plainTarget? at plain
        split at plain
        · cases sure
        · cases plain
      · exact .captured slot (Pattern.neverFails patterns sure)
  | .group patterns, sure => by
      rw [Matcher.sure] at sure
      rw [Matcher.parse]
      exact Pattern.neverFails patterns sure
  | .ref _ _, sure => nomatch sure
  | .charClass _ _, sure => nomatch sure
  | .any _, sure => nomatch sure

theorem Token.neverFails : ∀ ts : List Token, Token.allSure ts = true → (Token.parse T call ts).NeverFails
  | [], _ => by
      rw [Token.parse]
      exact .pass
  | ⟨matcher, required, repeated, ahead, notAhead, _, _⟩ :: rest, sure => by
      simp only [Token.allSure, Bool.and_eq_true, Bool.not_eq_true', Bool.or_eq_true] at sure
      obtain ⟨⟨rfl, here⟩, later⟩ := sure
      rw [Token.parse]
      refine .andThen (.modified matcher.slots fun must => ?_) (Token.neverFails rest later)
      rcases here with rfl | ⟨once, inside⟩
      · cases must
      · exact ⟨once, Matcher.neverFails matcher inside⟩

theorem Pattern.neverFails : ∀ ps : List Pattern, Pattern.someSure ps = true → (Pattern.parse T call ps).NeverFails
  | [], sure => nomatch sure
  | ⟨tokens, _, _⟩ :: rest, sure => by
      rw [Pattern.someSure, Bool.or_eq_true] at sure
      rw [Pattern.parse]
      exact .orElse (sure.imp (Token.neverFails tokens) (Pattern.neverFails rest))

end

end

end PegFlow
