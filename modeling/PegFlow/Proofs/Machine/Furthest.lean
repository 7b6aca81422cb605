/-
# PegFlow.Proofs.Machine.Furthest -- which failures are remembered

Of the terminals that failed so far outside every lookahead (`FailedAt`) the machine knows, at
each moment of a parse, the greatest position and exactly the terminals that failed there
(`Course.recalls`), as long as fewer lookaheads are open at once than it can count. It notes the
failure of a terminal where by its count none is open, and the count says whether the op is
outside (`State.Level.outside_iff`).
-/
import PegFlow.Proofs.Machine.Course

namespace PegFlow

set_option autoImplicit false

open Machine

/-- Neither the op nor a call under way is within a token that only looks ahead. -/
def Moment.Outside (g : AnnotatedGrammar) (m : Moment) : Prop :=
  ¬ g.LooksAhead m.op ∧ ∀ f ∈ m.state.frames, ¬ g.LooksAhead f.pass

/-- No lookahead is open by the count exactly when the op is outside all of them. -/
theorem State.Level.outside_iff {g : AnnotatedGrammar} {b : Buffer} {op : Nat} {s : State}
    (level : s.Level g op) (few : s.ahead g op < UInt32.size) : Moment.Outside g ⟨b, op, s⟩ ↔ s.quiet = 0 := by
  rw [level.eq_zero_iff few, State.ahead, Nat.add_eq_zero_iff, Program.depthsAround_eq_zero_iff]
  refine and_congr ?_ ?_
  · rw [← Program.depthAt_pos_iff, Nat.not_lt, Nat.le_zero]
  · simp only [State.exits, List.forall_mem_map, ← Program.depthAt_pos_iff, Nat.not_lt, Nat.le_zero]
    rfl

/-- A terminal failed at a position, outside every lookahead. -/
def FailedAt (g : AnnotatedGrammar) (p : Program) (past : List Moment) (pos id : Nat) : Prop :=
  ∃ m ∈ past, m.failed? p = some id ∧ m.state.pos = pos ∧ m.Outside g

/-- The machine knows of what was executed the greatest position at which a terminal failed
outside every lookahead, zero if none did, and the terminals that failed there, each once. -/
structure Recalls (g : AnnotatedGrammar) (p : Program) (past : List Moment) (s : State) : Prop where
  greatest : ∀ pos id, FailedAt g p past pos id → pos ≤ s.furthest
  reached : s.furthest = 0 ∨ ∃ id, FailedAt g p past s.furthest id
  distinct : s.expected.Nodup
  exact : ∀ id, id ∈ s.expected ↔ FailedAt g p past s.furthest id

section

variable {g : AnnotatedGrammar} {p : Program} {past : List Moment} {now : Moment} {s t : State}

theorem failedAt_cons {pos id : Nat} : FailedAt g p (now :: past) pos id ↔
    (now.failed? p = some id ∧ now.state.pos = pos ∧ now.Outside g) ∨ FailedAt g p past pos id := by
  simp only [FailedAt, List.exists_mem_cons_iff]

namespace Recalls

theorem congr (recalls : Recalls g p past s) (same : t.failures = s.failures) : Recalls g p past t := by
  obtain ⟨furthest, expected⟩ := Prod.mk.inj same
  exact ⟨furthest ▸ recalls.greatest, furthest ▸ recalls.reached, expected ▸ recalls.distinct,
    furthest ▸ expected ▸ recalls.exact⟩

/-- What fails nowhere, or within a lookahead, need not be recalled. -/
theorem skip (recalls : Recalls g p past s) (none : ∀ id, now.failed? p = some id → ¬ now.Outside g) :
    Recalls g p (now :: past) s := by
  have same {pos id : Nat} : FailedAt g p (now :: past) pos id ↔ FailedAt g p past pos id := by
    rw [failedAt_cons]
    exact or_iff_right fun failed => none id failed.1 failed.2.2
  exact ⟨fun pos id failed => recalls.greatest pos id (same.1 failed),
    recalls.reached.imp_right fun ⟨id, failed⟩ => ⟨id, same.2 failed⟩, recalls.distinct,
    fun id => (recalls.exact id).trans same.symm⟩

/-- A failure at a further position takes the place of all others, one at the furthest joins
them, and one behind it changes nothing. -/
theorem note (recalls : Recalls g p past now.state) {id : Nat} (failed : now.failed? p = some id)
    (outside : now.Outside g) (loud : now.state.quiet = 0) :
    Recalls g p (now :: past) (now.state.noteFailure id) := by
  have here : FailedAt g p (now :: past) now.state.pos id := failedAt_cons.2 (Or.inl ⟨failed, rfl, outside⟩)
  have split {pos id' : Nat} : FailedAt g p (now :: past) pos id' ↔
      (id' = id ∧ pos = now.state.pos) ∨ FailedAt g p past pos id' := by
    rw [failedAt_cons, failed, Option.some.injEq]
    exact or_congr_left ⟨fun h => ⟨h.1.symm, h.2.1.symm⟩, fun h => ⟨h.1.symm, h.2.symm, outside⟩⟩
  have le {pos id' : Nat} (failed : FailedAt g p (now :: past) pos id') :
      pos ≤ max now.state.furthest now.state.pos := by
    rcases split.1 failed with ⟨-, rfl⟩ | earlier
    · exact Nat.le_max_right _ _
    · exact Nat.le_trans (recalls.greatest pos id' earlier) (Nat.le_max_left _ _)
  rw [State.noteFailure, if_neg (not_not_intro loud)]
  by_cases further : now.state.furthest < now.state.pos
  · rw [if_pos further]
    refine ⟨fun pos id' failed => ?_, Or.inr ⟨id, here⟩, List.nodup_singleton id, fun id' => ?_⟩
    · have := le failed
      show pos ≤ now.state.pos
      omega
    · rw [List.mem_singleton, split]
      refine ⟨fun same => Or.inl ⟨same, rfl⟩, fun failed => failed.elim (fun h => h.1) fun earlier => ?_⟩
      have := recalls.greatest _ _ earlier
      dsimp only at this
      omega
  · have greatest : ∀ pos id', FailedAt g p (now :: past) pos id' → pos ≤ now.state.furthest := by
      intro pos id' failed
      have := le failed
      omega
    have reached : now.state.furthest = 0 ∨ ∃ id', FailedAt g p (now :: past) now.state.furthest id' :=
      recalls.reached.imp_right fun ⟨id', failed⟩ => ⟨id', split.2 (Or.inr failed)⟩
    rw [if_neg further]
    split
    · rename_i joins
      obtain ⟨same, fresh⟩ := joins
      have fresh : id ∉ now.state.expected := by simpa using fresh
      refine ⟨greatest, reached, List.nodup_cons.2 ⟨fresh, recalls.distinct⟩, fun id' => ?_⟩
      show id' ∈ id :: now.state.expected ↔ FailedAt g p (now :: past) now.state.furthest id'
      rw [List.mem_cons, split, recalls.exact, and_iff_left same]
    · rename_i stays
      refine ⟨greatest, reached, recalls.distinct, fun id' => ?_⟩
      rw [split, recalls.exact]
      refine ⟨Or.inr, fun failed => failed.elim (fun ⟨alike, same⟩ => ?_) fun earlier => earlier⟩
      have known : id ∈ now.state.expected := by
        by_contra fresh
        exact stays ⟨same, by simpa using fresh⟩
      rw [alike]
      exact (recalls.exact id).1 known

end Recalls

end

namespace Course

variable {g : AnnotatedGrammar} {library : Library} {past : List Moment} {now : Moment}

/-- One more op executed, its failure is recalled too. -/
theorem recalls_turn (course : Course (Program.ofGrammar g library) past now)
    (few : now.state.ahead g now.op < UInt32.size)
    (recalls : Recalls g (Program.ofGrammar g library) past now.state) :
    Recalls g (Program.ofGrammar g library) (now :: past) (now.turn (Program.ofGrammar g library)).state := by
  have after := (step_notes (Program.ofGrammar g library) now.buffer now.op now.state).failures
  have outside := course.level.outside_iff (b := now.buffer) few
  change (now.turn _).state.failures = now.knows _ at after
  change now.Outside g ↔ _ at outside
  rw [Moment.knows] at after
  cases failed : now.failed? (Program.ofGrammar g library) with
  | none =>
      rw [failed] at after
      exact (recalls.skip (by simp [failed])).congr after
  | some id =>
      rw [failed] at after
      by_cases loud : now.state.quiet = 0
      · exact (recalls.note failed (outside.2 loud) loud).congr after
      · have silent : (now.state.noteFailure id).failures = now.state.failures := by
          rw [State.noteFailure, if_pos loud]
        exact (recalls.skip fun _ _ => mt outside.1 loud).congr (after.trans silent)

/-- At every moment of a parse in which fewer lookaheads were open at once than can be counted the
machine knows the furthest failures among all that was executed so far. -/
theorem recalls (course : Course (Program.ofGrammar g library) past now)
    (shallow : Shallow g (Program.ofGrammar g library) now.buffer) :
    Recalls g (Program.ofGrammar g library) past now.state := by
  induction course with
  | start | whole =>
      exact ⟨(fun _ _ ⟨_, member, _⟩ => nomatch member), Or.inl rfl, List.nodup_nil,
        fun _ => ⟨(fun member => nomatch member), fun ⟨_, member, _⟩ => nomatch member⟩⟩
  | @goes past now op s before taken ih =>
      have recalls := before.recalls_turn (shallow past now before rfl) (ih shallow)
      rwa [taken] at recalls
  | @waits past now op s before halted pending ih =>
      have recalls := before.recalls_turn (shallow past now before rfl) (ih shallow)
      rw [halted] at recalls
      exact recalls.congr rfl
  | text _ appended ih => exact ih (shallow.of_append appended)
  | ends _ ih => exact ih shallow.of_close

end Course

end PegFlow
