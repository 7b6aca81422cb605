/-
# PegFlow.Proofs.Grammar.Nullable -- the nullable rulesets are the least closed set

A pass over the rulesets only sets marks. A pass that changes nothing has found every
ruleset that its marks call for marked (`Grammar.marked_of_settled`), and every other pass
sets a mark more, so there is such a pass among as many as there are rulesets and one more
(`Grammar.settleNullable_settled`). Hence a ruleset that may match nothing by the marks is
marked (`Grammar.nullable_closed`).

`Token.EmptyGiven N` states the rules: what may match nothing when the rulesets in `N` may. More
rulesets make more tokens nullable, so a mark that a pass sets, the marks set earlier in the same
pass in sight, is one of every set that is closed under the rules (`Grammar.nullablePass_sound`).
Together: the marks are the least closed set (`Grammar.nullable_isLeast`).
-/
import PegFlow.Grammar.Nullable
import Mathlib.Data.Finset.Card
import Mathlib.Data.Finset.Range
import Mathlib.Data.Finset.Filter
import Mathlib.Order.Bounds.Defs

namespace PegFlow

set_option autoImplicit false

/-! ## Marks that are set -/

namespace Marks

/-- The places of the marks that are set. -/
def places (marks : List Bool) : Finset Nat :=
  (Finset.range marks.length).filter fun i => marks[i]? = some true

theorem mem_places {marks : List Bool} {i : Nat} : i ∈ places marks ↔ marks[i]? = some true := by
  rw [places, Finset.mem_filter, Finset.mem_range, and_iff_right_iff_imp]
  exact fun found => (List.getElem?_eq_some_iff.1 found).1

theorem card_places_le (marks : List Bool) : (places marks).card ≤ marks.length := by
  have few := Finset.card_filter_le (Finset.range marks.length) fun i => marks[i]? = some true
  rwa [Finset.card_range] at few

/-- There are as many marks as before, and those that were set are. -/
structure Kept (marks marks' : List Bool) : Prop where
  length : marks'.length = marks.length
  places : places marks ⊆ places marks'

theorem Kept.refl (marks : List Bool) : Kept marks marks := ⟨rfl, Finset.Subset.refl _⟩

theorem Kept.trans {marks marks' marks'' : List Bool} (one : Kept marks marks')
    (other : Kept marks' marks'') : Kept marks marks'' :=
  ⟨other.length.trans one.length, one.places.trans other.places⟩

theorem Kept.set (marks : List Bool) (i : Nat) : Kept marks (marks.set i true) := by
  refine ⟨List.length_set, fun j member => ?_⟩
  have found := mem_places.1 member
  rw [mem_places, List.getElem?_set]
  split
  · rename_i same
    subst same
    rw [if_pos (List.getElem?_eq_some_iff.1 found).1]
  · exact found

theorem eq_of_places {marks marks' : List Bool} (length : marks'.length = marks.length)
    (same : places marks = places marks') : marks = marks' := by
  refine List.ext_getElem length.symm fun i lt lt' => ?_
  have agree := Finset.ext_iff.1 same i
  rw [mem_places, mem_places, List.getElem?_eq_getElem lt, List.getElem?_eq_getElem lt',
    Option.some_inj, Option.some_inj] at agree
  exact Bool.eq_iff_iff.2 agree

/-- Marks that are kept and not the same are more. -/
theorem Kept.card_lt {marks marks' : List Bool} (kept : Kept marks marks') (ne : marks' ≠ marks) :
    (Marks.places marks).card < (Marks.places marks').card :=
  Finset.card_lt_card (kept.places.ssubset_of_ne fun same => ne (eq_of_places kept.length same).symm)

theorem Kept.eq_of_kept {marks marks' : List Bool} (there : Kept marks marks')
    (back : Kept marks' marks) : marks = marks' :=
  eq_of_places there.length (there.places.antisymm back.places)

end Marks

namespace Grammar

/-! ## Passes -/

/-- Set the mark of a ruleset, given with its place, if the marks so far call for it. -/
def markNullable (marks : List Bool) (s : Ruleset × Nat) : List Bool :=
  if s.1.nullable marks then marks.set s.2 true else marks

theorem markNullable_kept (marks : List Bool) (s : Ruleset × Nat) :
    Marks.Kept marks (markNullable marks s) := by
  unfold markNullable
  split
  · exact .set marks s.2
  · exact .refl marks

theorem foldl_markNullable_kept (rulesets : List (Ruleset × Nat)) (marks : List Bool) :
    Marks.Kept marks (rulesets.foldl markNullable marks) := by
  induction rulesets generalizing marks with
  | nil => exact .refl marks
  | cons s rest ih => exact (markNullable_kept marks s).trans (ih _)

/-- When the whole pass changes nothing no step of it does. -/
theorem markNullable_eq_of_foldl {rulesets : List (Ruleset × Nat)} {marks : List Bool}
    (still : rulesets.foldl markNullable marks = marks) :
    ∀ s ∈ rulesets, markNullable marks s = marks := by
  induction rulesets with
  | nil => exact List.forall_mem_nil _
  | cons s rest ih =>
      have first : marks = markNullable marks s := by
        refine (markNullable_kept marks s).eq_of_kept ?_
        have later := foldl_markNullable_kept rest (markNullable marks s)
        rwa [← List.foldl_cons, still] at later
      rw [List.foldl_cons, ← first] at still
      exact List.forall_mem_cons.2 ⟨first.symm, ih still⟩

variable (g : Grammar)

theorem nullablePass_eq (marks : List Bool) :
    g.nullablePass marks = g.rulesets.zipIdx.foldl markNullable marks := rfl

theorem nullablePass_kept (marks : List Bool) : Marks.Kept marks (g.nullablePass marks) :=
  foldl_markNullable_kept _ _

/-- Marks that a pass does not change have every ruleset marked that they call for. -/
theorem marked_of_settled {marks : List Bool} (length : marks.length = g.rulesets.length)
    (settled : g.nullablePass marks = marks) {i : Nat} {s : Ruleset} (found : g.rulesets[i]? = some s)
    (nullable : s.nullable marks = true) : marks[i]? = some true := by
  rw [nullablePass_eq] at settled
  have still := markNullable_eq_of_foldl settled (s, i) (List.mem_zipIdx_iff_getElem?.2 found)
  rw [markNullable, if_pos nullable] at still
  rw [← still]
  exact List.getElem?_set_self (length ▸ (List.getElem?_eq_some_iff.1 found).1)

theorem nullablePass_iterate_kept (passes : Nat) (marks : List Bool) :
    Marks.Kept marks (g.nullablePass^[passes] marks) := by
  induction passes with
  | zero => exact .refl marks
  | succ passes ih =>
      rw [Function.iterate_succ_apply']
      exact ih.trans (g.nullablePass_kept _)

/-- With more passes than there are marks to set, some pass changes nothing; the marks are those
after the passes before it, each of which changed something. -/
theorem settleNullable_settled (passes : Nat) (marks : List Bool)
    (enough : marks.length < passes + (Marks.places marks).card) :
    ∃ k < passes, g.settleNullable passes marks = g.nullablePass^[k] marks ∧
      (∀ j < k, g.nullablePass^[j + 1] marks ≠ g.nullablePass^[j] marks) ∧
      g.nullablePass (g.nullablePass^[k] marks) = g.nullablePass^[k] marks := by
  induction passes generalizing marks with
  | zero =>
      have few := Marks.card_places_le marks
      omega
  | succ passes ih =>
      rw [settleNullable]
      by_cases still : g.nullablePass marks = marks
      · rw [if_pos still]
        exact ⟨0, Nat.succ_pos passes, rfl, by simp, still⟩
      · have kept := g.nullablePass_kept marks
        have more := kept.card_lt still
        have length := kept.length
        obtain ⟨k, lt, settled, changes, last⟩ := ih (g.nullablePass marks) (by omega)
        rw [if_neg still]
        refine ⟨k + 1, Nat.succ_lt_succ lt, settled, ?_, last⟩
        intro j less
        cases j with
        | zero => exact still
        | succ j => exact changes j (Nat.lt_of_succ_lt_succ less)

/-- The marks before the first pass. -/
def unmarked : List Bool := g.rulesets.map fun _ => false

theorem nullable_reached :
    ∃ k ≤ g.rulesets.length, g.nullable = g.nullablePass^[k] g.unmarked ∧
      (∀ j < k, g.nullablePass^[j + 1] g.unmarked ≠ g.nullablePass^[j] g.unmarked) ∧
      g.nullablePass g.nullable = g.nullable := by
  have length : g.unmarked.length = g.rulesets.length := List.length_map _
  obtain ⟨k, lt, settled, changes, last⟩ := g.settleNullable_settled (g.rulesets.length + 1) g.unmarked
    (by omega)
  change g.nullable = _ at settled
  exact ⟨k, Nat.le_of_lt_succ lt, settled, changes, by rw [settled, last]⟩

theorem nullable_settled :
    g.nullable.length = g.rulesets.length ∧ g.nullablePass g.nullable = g.nullable := by
  obtain ⟨k, -, reached, -, settled⟩ := g.nullable_reached
  refine ⟨?_, settled⟩
  rw [reached, (g.nullablePass_iterate_kept k _).length]
  exact List.length_map _

/-- A ruleset that may match nothing, by the marks, is marked. -/
theorem nullable_closed {i : Nat} {s : Ruleset} (found : g.rulesets[i]? = some s)
    (nullable : s.nullable g.nullable = true) : g.nullable[i]? = some true :=
  g.marked_of_settled g.nullable_settled.1 g.nullable_settled.2 found nullable

end Grammar

/-! ## The rules -/

mutual

/-- A matcher that may match nothing when the rulesets in `N` may: an empty text, a reference to
one of them, or a choice with a pattern all tokens of which may. -/
inductive Matcher.EmptyGiven (N : Set Nat) : Matcher → Prop
  | literal (terminal : Option Nat) : Matcher.EmptyGiven N (.literal "" terminal)
  | ref (name : String) {ruleset : Nat} (empty : ruleset ∈ N) :
      Matcher.EmptyGiven N (.ref name (some ruleset))
  | choice {x : Matcher} {p : Pattern} (among : p ∈ x.patterns)
      (empty : ∀ t ∈ p.tokens, Token.EmptyGiven N t) : Matcher.EmptyGiven N x

/-- A token that may match nothing when the rulesets in `N` may. -/
inductive Token.EmptyGiven (N : Set Nat) : Token → Prop
  | optional {t : Token} (free : t.required = false) : Token.EmptyGiven N t
  | predicate {t : Token} (looks : t.isPredicate = true) : Token.EmptyGiven N t
  | matcher {t : Token} (empty : t.matcher.EmptyGiven N) : Token.EmptyGiven N t

end

/-- A ruleset with a pattern all tokens of which may match nothing. -/
def Ruleset.EmptyGiven (N : Set Nat) (s : Ruleset) : Prop :=
  ∃ r ∈ s.rules, ∃ p ∈ r.patterns, ∀ t ∈ p.tokens, t.EmptyGiven N

mutual

theorem Matcher.EmptyGiven.mono {N M : Set Nat} (sub : N ⊆ M) :
    ∀ {x : Matcher}, x.EmptyGiven N → x.EmptyGiven M
  | _, .literal terminal => .literal terminal
  | _, .ref name empty => .ref name (sub empty)
  | _, .choice among empty => .choice among fun t member => Token.EmptyGiven.mono sub (empty t member)

theorem Token.EmptyGiven.mono {N M : Set Nat} (sub : N ⊆ M) :
    ∀ {t : Token}, t.EmptyGiven N → t.EmptyGiven M
  | _, .optional free => .optional free
  | _, .predicate looks => .predicate looks
  | _, .matcher empty => .matcher (Matcher.EmptyGiven.mono sub empty)

end

theorem Matcher.emptyGiven_choice_iff {N : Set Nat} {x : Matcher} (choice : x.isChoice = true) :
    x.EmptyGiven N ↔ ∃ p ∈ x.patterns, ∀ t ∈ p.tokens, t.EmptyGiven N := by
  constructor
  · intro empty
    cases empty with
    | literal | ref => cases choice
    | choice among all => exact ⟨_, among, all⟩
  · rintro ⟨p, among, all⟩
    exact .choice among all

theorem Ruleset.EmptyGiven.mono {N M : Set Nat} (sub : N ⊆ M) {s : Ruleset} (empty : s.EmptyGiven N) :
    s.EmptyGiven M := by
  obtain ⟨r, isRule, p, isPattern, all⟩ := empty
  exact ⟨r, isRule, p, isPattern, fun t member => Token.EmptyGiven.mono sub (all t member)⟩

theorem Token.nullable_eq {marks : List Bool} {matcher : Matcher} {required repeated ahead notAhead : Bool}
    {id : Nat} {pos : Option SourcePosition} :
    Token.nullable marks ⟨matcher, required, repeated, ahead, notAhead, id, pos⟩ =
      (!required || ahead || notAhead || matcher.nullable marks) := by
  simp only [Token.nullable, Token.isPredicate, Bool.or_assoc]

/-- The rulesets that are marked. -/
def Marks.marked (marks : List Bool) : Set Nat := {i | marks[i]? = some true}

section

variable (marks : List Bool)

mutual

theorem Matcher.nullable_iff : ∀ x : Matcher, x.nullable marks = true ↔ x.EmptyGiven (Marks.marked marks)
  | .capture patterns slot => by
      rw [Matcher.nullable, Pattern.someNullable_iff patterns, Matcher.emptyGiven_choice_iff rfl]
      exact Iff.rfl
  | .group patterns => by
      rw [Matcher.nullable, Pattern.someNullable_iff patterns, Matcher.emptyGiven_choice_iff rfl]
      exact Iff.rfl
  | .ref name target => by
      rw [Matcher.nullable]
      constructor
      · intro nothing
        cases target with
        | none => simp at nothing
        | some i =>
            apply Matcher.EmptyGiven.ref
            show marks[i]? = some true
            cases mark : marks[i]? <;> simp_all
      · intro empty
        cases empty with
        | ref _ member =>
            have mark : marks[_]? = some true := member
            simp [mark]
        | choice among => cases among
  | .literal text terminal => by
      rw [Matcher.nullable, beq_iff_eq]
      constructor
      · rintro rfl
        exact .literal terminal
      · intro empty
        cases empty with
        | literal => rfl
        | choice among => cases among
  | .charClass spec terminal => by
      rw [Matcher.nullable]
      constructor
      · intro never
        cases never
      · intro empty
        cases empty with
        | choice among => cases among
  | .any terminal => by
      rw [Matcher.nullable]
      constructor
      · intro never
        cases never
      · intro empty
        cases empty with
        | choice among => cases among

theorem Token.allNullable_iff : ∀ ts : List Token,
    Token.allNullable marks ts = true ↔ ∀ t ∈ ts, t.EmptyGiven (Marks.marked marks)
  | [] => by simp [Token.allNullable]
  | ⟨matcher, required, repeated, ahead, notAhead, id, pos⟩ :: rest => by
      have first : (!required || ahead || notAhead || matcher.nullable marks) = true ↔
          Token.EmptyGiven (Marks.marked marks) ⟨matcher, required, repeated, ahead, notAhead, id, pos⟩ := by
        simp only [Bool.or_eq_true, Bool.not_eq_true', Matcher.nullable_iff matcher]
        constructor
        · rintro (((free | looks) | looks) | empty)
          · exact .optional free
          · exact .predicate (by simp [Token.isPredicate, looks])
          · exact .predicate (by simp [Token.isPredicate, looks])
          · exact .matcher empty
        · intro empty
          cases empty with
          | optional free => exact Or.inl (Or.inl (Or.inl free))
          | predicate looks =>
              rw [Token.isPredicate, Bool.or_eq_true] at looks
              rcases looks with looks | looks
              · exact Or.inl (Or.inl (Or.inr looks))
              · exact Or.inl (Or.inr looks)
          | matcher empty => exact Or.inr empty
      rw [Token.allNullable, Bool.and_eq_true, first, Token.allNullable_iff rest, List.forall_mem_cons]

theorem Pattern.someNullable_iff : ∀ ps : List Pattern,
    Pattern.someNullable marks ps = true ↔ ∃ p ∈ ps, ∀ t ∈ p.tokens, t.EmptyGiven (Marks.marked marks)
  | [] => by simp [Pattern.someNullable]
  | ⟨tokens, canFail, id⟩ :: rest => by
      rw [Pattern.someNullable, Bool.or_eq_true, Token.allNullable_iff tokens, Pattern.someNullable_iff rest]
      simp

end

theorem Ruleset.nullable_iff (s : Ruleset) :
    s.nullable marks = true ↔ s.EmptyGiven (Marks.marked marks) := by
  simp only [Ruleset.nullable, List.any_eq_true, Pattern.someNullable_iff, Ruleset.EmptyGiven]

end

namespace Grammar

variable (g : Grammar)

/-- Every ruleset that may match nothing when those in the set may is in the set. -/
def EmptyClosed (N : Set Nat) : Prop :=
  ∀ (i : Nat) (s : Ruleset), g.rulesets[i]? = some s → s.EmptyGiven N → i ∈ N

/-! ## The least closed set -/

section

variable {g} {N : Set Nat} (closed : g.EmptyClosed N)

include closed

theorem markNullable_sound {marks : List Bool} {s : Ruleset} {i : Nat} (found : g.rulesets[i]? = some s)
    (sub : Marks.marked marks ⊆ N) : Marks.marked (markNullable marks (s, i)) ⊆ N := by
  intro j mark
  unfold markNullable at mark
  split at mark
  · rename_i nullable
    by_cases same : i = j
    · subst same
      apply closed i s found
      exact Ruleset.EmptyGiven.mono sub ((Ruleset.nullable_iff marks s).1 nullable)
    · apply sub
      have kept : (marks.set i true)[j]? = some true := mark
      rwa [List.getElem?_set_ne same] at kept
  · exact sub mark

/-- A pass sets no mark outside a closed set, though it reads the marks that it has just set. -/
theorem nullablePass_sound {marks : List Bool} (sub : Marks.marked marks ⊆ N) :
    Marks.marked (g.nullablePass marks) ⊆ N := by
  have steps : ∀ rulesets : List (Ruleset × Nat), (∀ s ∈ rulesets, g.rulesets[s.2]? = some s.1) →
      ∀ marks : List Bool, Marks.marked marks ⊆ N → Marks.marked (rulesets.foldl markNullable marks) ⊆ N := by
    intro rulesets
    induction rulesets with
    | nil => exact fun _ _ sub => sub
    | cons s rest ih =>
        intro placed marks sub
        apply ih (fun t member => placed t (List.mem_cons_of_mem _ member))
        exact markNullable_sound closed (placed s List.mem_cons_self) sub
  rw [nullablePass_eq]
  apply steps _ _ marks sub
  intro s member
  exact List.mem_zipIdx_iff_getElem?.1 member

end

/-- The loop over the rulesets, which reads the marks while it sets them, ends: each of its first
`k` passes sets a mark, `k` is at most the number of rulesets, and the next pass sets none. The
marks that it leaves, one a ruleset, are the least set of rulesets that is closed under the rules
for matching nothing. -/
theorem nullable_isLeast :
    (∃ k ≤ g.rulesets.length, g.nullable = g.nullablePass^[k] g.unmarked ∧
      (∀ j < k, g.nullablePass^[j + 1] g.unmarked ≠ g.nullablePass^[j] g.unmarked) ∧
      g.nullablePass g.nullable = g.nullable) ∧
    g.nullable.length = g.rulesets.length ∧
    IsLeast {N : Set Nat | g.EmptyClosed N} (Marks.marked g.nullable) := by
  refine ⟨g.nullable_reached, g.nullable_settled.1, ?_, ?_⟩
  · intro i s found empty
    apply g.nullable_closed found
    exact (Ruleset.nullable_iff _ s).2 empty
  · intro N closed
    obtain ⟨k, -, reached, -⟩ := g.nullable_reached
    have passes : ∀ k, Marks.marked (g.nullablePass^[k] g.unmarked) ⊆ N := by
      intro k
      induction k with
      | zero =>
          intro i mark
          have set : (g.rulesets.map fun _ => false)[i]? = some true := mark
          rw [List.getElem?_map, Option.map_eq_some_iff] at set
          obtain ⟨s, -, no⟩ := set
          cases no
      | succ k ih =>
          rw [Function.iterate_succ_apply']
          exact nullablePass_sound closed ih
    rw [reached]
    exact passes k

end Grammar

end PegFlow
