/-
# PegFlow.Proofs.Machine.Results -- the last result is there when it is taken

In every state that a run comes by, an op that takes the output of the rule that matched last
finds one, and no call under way goes on at such an op when its ruleset does not match
(`Supplied`). A step keeps this in every program that turns to those ops with a result only
(`Supplied.next`), as the program of a grammar does.
-/
import PegFlow.Proofs.Machine.Follow
import PegFlow.Proofs.Machine.Control
import PegFlow.Proofs.Program.Closed
import PegFlow.Proofs.Program.Results

namespace PegFlow

set_option autoImplicit false

open Program

/-- If the machine goes on at an op that takes a result then with one. -/
def Progress.Supplies (p : Program) : Progress → Prop
  | .next op t => p.Takes op → t.result.isSome = true
  | .halt _ => True
  | .fault _ _ => True

namespace Machine

/-- The op at hand has the result that it takes, and the calls under way go on at no op that
takes one when their rulesets do not match. -/
structure Supplied (p : Program) (op : Nat) (s : State) : Prop where
  result : p.Takes op → s.result.isSome = true
  exits : ∀ e ∈ s.exits, ¬ p.Takes e.2

variable {p : Program} {b : Buffer} {T : String} {op op' : Nat} {s s' : State} {o : Op}

/-- An op of a pattern, but for a call, turns to no op that takes a result. -/
theorem supplies_of_goes {turn : Progress} (feeds : p.Feeds) (held : p.ops[op]? = some o) (inner : o.Inner)
    (plain : o.without = o.targets) (goes : turn.Goes p b op s) : turn.Supplies p := by
  cases goes with
  | onward held' target _ =>
      intro takes
      cases held.symm.trans held'
      exact absurd takes (feeds.turns op o held _ (plain ▸ target))
  | begins held' found _ =>
      intro takes
      exact absurd takes (feeds.entries _ _ found)
  | again held' found _ _ =>
      intro takes
      exact absurd takes (feeds.entries _ _ found)
  | leaves held' newest exit left =>
      rcases held' with ret | ret
      · cases held.symm.trans ret
        exact inner.elim
      · cases held.symm.trans ret
        exact inner.elim
  | waits => trivial
  | accepts => trivial
  | rejects => trivial
  | faults => trivial

theorem call_supplies {ruleset pass fail : Nat} (feeds : p.Feeds)
    (held : p.ops[op]? = some (.call ruleset pass fail)) : (State.call p s ruleset pass fail).Supplies p := by
  unfold State.call
  split
  · dsimp only
    split
    · intro _
      rfl
    · intro takes
      exact absurd takes (feeds.turns op _ held fail List.mem_cons_self)
  · split
    · trivial
    · rename_i entry found
      intro takes
      exact absurd takes (feeds.entries ruleset entry found)

theorem giveOutput_supplies (rule next : Nat) : (State.giveOutput p b s rule next).Supplies p := by
  unfold State.giveOutput
  split
  · trivial
  · split
    · trivial
    · split
      · trivial
      · dsimp only
        split
        · intro _
          rfl
        · trivial

/-- A ruleset that matched is left with the last result, or with the best one of its rounds. -/
theorem leave_supplies (feeds : p.Feeds) (result : s.result.isSome = true) : (State.leave p s).Supplies p := by
  have leaving := State.leave_leaving p s
  generalize State.leave p s = turn at leaving
  cases leaving with
  | outside | nowhere => trivial
  | result => exact fun _ => result
  | earlier => exact fun _ => rfl
  | again _ _ _ found => exact fun takes => absurd takes (feeds.entries _ _ found)

theorem leaveFailed_supplies (exits : ∀ e ∈ s.exits, ¬ p.Takes e.2) : s.leaveFailed.Supplies p := by
  unfold State.leaveFailed
  split
  · trivial
  · rename_i f rest frames
    dsimp only
    split
    · intro _
      rfl
    · intro takes
      refine absurd takes (exits f.exits ?_)
      rw [State.exits, frames]
      exact List.mem_cons_self

theorem step_supplies (feeds : p.Feeds) (b : Buffer) (supplied : Supplied p op s) : (step p b op s).Supplies p := by
  cases held : p.ops[op]? with
  | none =>
      simp only [step, held]
      trivial
  | some o =>
      have goes := step_goes p b op s
      cases o with
      | call ruleset pass fail =>
          simp only [step, held]
          exact call_supplies feeds held
      | output rule next =>
          simp only [step, held]
          exact giveOutput_supplies rule next
      | ret =>
          simp only [step, held]
          exact leave_supplies feeds (supplied.result ⟨_, held, trivial⟩)
      | retFail =>
          simp only [step, held]
          exact leaveFailed_supplies supplied.exits
      | accept =>
          simp only [step, held]
          trivial
      | reject =>
          simp only [step, held]
          trivial
      | _ => exact supplies_of_goes feeds held trivial rfl goes

theorem Supplied.next (feeds : p.Feeds) (supplied : Supplied p op s) (taken : step p b op s = .next op' s') : Supplied p op' s' := by
  have supplies := step_supplies feeds b supplied
  have goes := step_goes p b op s
  rw [taken] at supplies goes
  refine ⟨supplies, ?_⟩
  cases goes with
  | onward _ _ same =>
      rw [same]
      exact supplied.exits
  | begins held _ more =>
      rw [more]
      exact List.forall_mem_cons.2 ⟨feeds.turns op _ held _ List.mem_cons_self, supplied.exits⟩
  | again _ _ _ same =>
      rw [same]
      exact supplied.exits
  | leaves _ newest _ left =>
      rw [left]
      have all := supplied.exits
      rw [newest] at all
      exact (List.forall_mem_cons.1 all).2

/-- In every state that a run comes by the op at hand has the result that it takes. -/
theorem Reaches.supplied (feeds : p.Feeds) (path : Reaches p T op s op' s') (supplied : Supplied p op s) : Supplied p op' s' := by
  induction path with
  | here => exact supplied
  | onward _ taken _ ih => exact ih (supplied.next feeds taken)

end Machine

open Machine

theorem AnnotatedGrammar.first_supplied {g : AnnotatedGrammar} (linked : g.Linked) (library : Library) :
    Supplied (ofGrammar g library) (ofGrammar g library).root (g.first library) where
  result takes := absurd takes (ofGrammar_feeds linked library).root
  exits := by simp [State.exits, AnnotatedGrammar.first, State.start]

theorem Follows.supplied {g : AnnotatedGrammar} {library : Library} {b : Buffer} {P : String} {op : Nat} {s : State}
    (h : Follows g library b P op s) (linked : g.Linked) : Supplied (ofGrammar g library) op s :=
  (h.path "" (fun _ => rfl) h.fits_whole).supplied (ofGrammar_feeds linked library) (g.first_supplied linked library)

end PegFlow
