/-
# PegFlow.Proofs.Program.Places -- where the ops and rules of rulesets are

When a list without repetitions is put in another order, `Renaming.between` tells for each place
where what stood there is now. A ruleset takes up several places, one for each of its ops or of
its rules: `Program.places` names each by the ruleset and the offset in it. The code, the entry and
the outputs of each ruleset are at the places that it has (`Program.ofGrammar_placed`).
-/
import PegFlow.Proofs.Program.Shadowed
import Mathlib.Data.List.Nodup

namespace PegFlow

set_option autoImplicit false

/-! ## Places in another order -/

theorem List.idxOf_of_getElem? {α : Type} [DecidableEq α] {xs : List α} (distinct : xs.Nodup) {i : Nat} {x : α}
    (here : xs[i]? = some x) : xs.idxOf x = i := by
  obtain ⟨lt, rfl⟩ := List.getElem?_eq_some_iff.1 here
  exact distinct.idxOf_getElem i lt

section

variable {α : Type} [DecidableEq α] {xs xs' : List α}

/-- Where the item at a place of the one list is in the other; what is beyond stays. -/
def Renaming.between (xs xs' : List α) (i : Nat) : Nat :=
  match xs[i]? with
  | some x => xs'.idxOf x
  | none => i

namespace Renaming

theorem between_eq (distinct : xs'.Nodup) {i j : Nat} {x : α} (here : xs[i]? = some x)
    (there : xs'[j]? = some x) : between xs xs' i = j := by
  rw [between, here]
  exact List.idxOf_of_getElem? distinct there

theorem between_of_le {i : Nat} (le : xs.length ≤ i) : between xs xs' i = i := by
  rw [between, List.getElem?_eq_none le]

variable (perm : xs.Perm xs')

include perm

theorem getElem?_between (i : Nat) : xs'[between xs xs' i]? = xs[i]? := by
  cases here : xs[i]? with
  | none =>
      have le := List.getElem?_eq_none_iff.1 here
      rw [between_of_le le, List.getElem?_eq_none_iff, ← perm.length_eq]
      exact le
  | some x =>
      have member := perm.mem_iff.1 (List.mem_of_getElem? here)
      rw [between, here]
      exact List.getElem?_idxOf member

/-- Different places become different places. -/
theorem between_injective (distinct : xs.Nodup) : Function.Injective (between xs xs') := by
  intro i j same
  have items : xs[i]? = xs[j]? := by
    rw [← getElem?_between perm i, ← getElem?_between perm j, same]
  cases here : xs[i]? with
  | some x => exact List.place_unique distinct here (items.symm.trans here)
  | none =>
      have le := List.getElem?_eq_none_iff.1 here
      have le' := List.getElem?_eq_none_iff.1 (items.symm.trans here)
      rwa [between_of_le le, between_of_le le'] at same

end Renaming

end

theorem List.exists_of_getElem? {α : Type} {xs : List α} {i : Nat} {x : α} (here : xs[i]? = some x) :
    ∃ before after, xs = before ++ x :: after ∧ before.length = i := by
  obtain ⟨lt, rfl⟩ := List.getElem?_eq_some_iff.1 here
  refine ⟨xs.take i, xs.drop (i + 1), ?_, List.length_take_of_le lt.le⟩
  rw [List.getElem_cons_drop, List.take_append_drop]

/-! ## Several places for each ruleset -/

/-- The number of ops of a ruleset. -/
def Ruleset.opCount (s : Ruleset) : Nat := (s.rules.map fun r => (Pattern.fragment r.patterns).size + 1).sum

/-- The number of rules of a ruleset. -/
def Ruleset.ruleCount (s : Ruleset) : Nat := s.rules.length

namespace Program

/-- The places of each ruleset in turn, each by the name and its offset. -/
def places (count : Ruleset → Nat) (rulesets : List Ruleset) : List (String × Nat) :=
  rulesets.flatMap fun s => (List.range (count s)).map (s.name, ·)

section

variable (count : Ruleset → Nat) {rulesets : List Ruleset}

theorem length_places (rulesets : List Ruleset) :
    (places count rulesets).length = (rulesets.map count).sum := by
  simp [places, List.length_flatMap]

theorem mem_places {name : String} {k : Nat} :
    (name, k) ∈ places count rulesets ↔ ∃ s ∈ rulesets, s.name = name ∧ k < count s := by
  rw [places, List.mem_flatMap]
  refine exists_congr fun s => and_congr_right fun _ => ?_
  rw [List.mem_map]
  constructor
  · rintro ⟨k', inside, same⟩
    cases same
    exact ⟨rfl, List.mem_range.1 inside⟩
  · rintro ⟨rfl, lt⟩
    exact ⟨k, List.mem_range.2 lt, rfl⟩

theorem places_nodup (distinct : (rulesets.map Ruleset.name).Nodup) : (places count rulesets).Nodup := by
  induction rulesets with
  | nil => exact List.nodup_nil
  | cons s rest ih =>
      rw [List.map_cons, List.nodup_cons] at distinct
      obtain ⟨new, distinct⟩ := distinct
      rw [places, List.flatMap_cons]
      refine List.Nodup.append (List.nodup_range.map fun _ _ same => (Prod.mk.inj same).2) (ih distinct) ?_
      intro place here there
      obtain ⟨k, -, rfl⟩ := List.mem_map.1 here
      obtain ⟨s', member, same, -⟩ := (mem_places count).1 there
      exact new (same ▸ List.mem_map_of_mem member)

theorem getElem?_places (before : List Ruleset) (s : Ruleset) (after : List Ruleset) {k : Nat}
    (lt : k < count s) :
    (places count (before ++ s :: after))[(places count before).length + k]? = some (s.name, k) := by
  have split : places count (before ++ s :: after) =
      places count before ++ ((List.range (count s)).map (s.name, ·) ++ places count after) := by
    simp only [places, List.flatMap_append, List.flatMap_cons]
  rw [split, List.getElem?_append_right (Nat.le_add_right _ _), Nat.add_sub_cancel_left,
    List.getElem?_append_left (by simpa using lt)]
  simp [lt]

/-- Each place is that of some ruleset. -/
theorem exists_of_lt_places {i : Nat} (lt : i < (places count rulesets).length) :
    ∃ before s after k, rulesets = before ++ s :: after ∧ i = (places count before).length + k ∧
      k < count s := by
  induction rulesets generalizing i with
  | nil => exact absurd lt (Nat.not_lt_zero i)
  | cons s rest ih =>
      rw [length_places, List.map_cons, List.sum_cons, ← length_places] at lt
      by_cases inside : i < count s
      · exact ⟨[], s, rest, i, rfl, (Nat.zero_add i).symm, inside⟩
      · obtain ⟨before, s', after, k, rfl, place, within⟩ := ih (i := i - count s) (by omega)
        refine ⟨s :: before, s', after, k, rfl, ?_, within⟩
        rw [length_places, List.map_cons, List.sum_cons, ← length_places]
        omega

end

/-! ## The places in a program -/

theorem length_opPlaces (base index : Nat) (rulesets : List Ruleset) :
    (rulesetOps base index rulesets).1.length = (places Ruleset.opCount rulesets).length := by
  rw [length_places]
  induction rulesets generalizing base index with
  | nil => rfl
  | cons s rest ih =>
      rw [rulesetOps, List.length_append, rulesFragment_length, ih, List.map_cons, List.sum_cons]
      rfl

theorem length_rulePlaces (rulesets : List Ruleset) :
    (places Ruleset.ruleCount rulesets).length = (rulesets.flatMap Ruleset.rules).length := by
  rw [length_places, List.length_flatMap]
  rfl

/-- The code of a ruleset when others go before it. -/
def codeAfter (before : List Ruleset) (s : Ruleset) : Code :=
  rulesFragment (places Ruleset.ruleCount before).length s.rules (2 + (places Ruleset.opCount before).length)
    retAt retFailAt

theorem length_codeAfter (before : List Ruleset) (s : Ruleset) : (codeAfter before s).ops.length = s.opCount :=
  rulesFragment_length ..

/-- The entry of each ruleset is where its code begins. -/
theorem rulesetOps_entry (before : List Ruleset) (s : Ruleset) (after : List Ruleset) (base index : Nat) :
    (rulesetOps base index (before ++ s :: after)).2[before.length]? =
      some (rulesFragment (index + (places Ruleset.ruleCount before).length) s.rules
        (base + (places Ruleset.opCount before).length) retAt retFailAt).entry := by
  induction before generalizing base index with
  | nil => rfl
  | cons first rest ih =>
      have ops : (places Ruleset.opCount (first :: rest)).length =
          (rulesFragment index first.rules base retAt retFailAt).ops.length +
            (places Ruleset.opCount rest).length := by
        rw [length_places, List.map_cons, List.sum_cons, ← length_places, rulesFragment_length]
        rfl
      have rules : (places Ruleset.ruleCount (first :: rest)).length =
          first.rules.length + (places Ruleset.ruleCount rest).length := by
        rw [length_places, List.map_cons, List.sum_cons, ← length_places]
        rfl
      rw [ops, rules, ← Nat.add_assoc, ← Nat.add_assoc]
      exact ih _ _

variable {g : AnnotatedGrammar} {before after : List Ruleset} {s : Ruleset}

/-- The code of a ruleset and the outputs of its rules are at its places. -/
structure Placed (p : Program) (before : List Ruleset) (s : Ruleset) : Prop where
  ops : Holds p.ops (2 + (places Ruleset.opCount before).length) (codeAfter before s).ops
  entry : p.entries[before.length]? = some (codeAfter before s).entry
  rules : Holds p.rules (places Ruleset.ruleCount before).length (s.rules.map outputOf)

theorem ofGrammar_placed (library : Library) (split : g.grammar.rulesets = before ++ s :: after) :
    (ofGrammar g library).Placed before s := by
  constructor
  · have anything : g.grammar.Every fun _ => True := fun s _ r _ => Pattern.every_true r.patterns
    have held := (Compiled.stands library anything trivial (.ruleset split)).held
    rw [length_opPlaces, ← length_rulePlaces] at held
    exact held
  · have entry := rulesetOps_entry before s after 2 0
    rw [← split, Nat.zero_add] at entry
    exact (List.getElem?_toArray ..).trans entry
  · have all : Holds (ofGrammar g library).rules 0
        (g.grammar.rulesets.flatMap fun s => s.rules.map outputOf) := by
      intro i x found
      rw [Nat.zero_add]
      exact (List.getElem?_toArray ..).trans found
    rw [split, List.flatMap_append, List.flatMap_cons] at all
    have inside := all.right.left
    have length : (before.flatMap fun s => s.rules.map outputOf).length =
        (places Ruleset.ruleCount before).length := by
      rw [length_places, List.length_flatMap]
      simp only [List.length_map]
      rfl
    rwa [Nat.zero_add, length] at inside

/-- The number of ops. -/
theorem size_ops (g : AnnotatedGrammar) (library : Library) :
    (ofGrammar g library).ops.size = 2 + (places Ruleset.opCount g.grammar.rulesets).length + 3 := by
  have size : (ofGrammar g library).ops.size = 2 + (rulesetOps 2 0 g.grammar.rulesets).1.length + 3 := by
    simp [ofGrammar, Nat.add_comm 2]
  rw [size, length_opPlaces]

/-- The number of rules. -/
theorem size_rules (g : AnnotatedGrammar) (library : Library) :
    (ofGrammar g library).rules.size = (places Ruleset.ruleCount g.grammar.rulesets).length := by
  rw [length_places]
  simp only [ofGrammar, List.size_toArray, List.length_flatMap, List.length_map]
  rfl

/-- Behind the rulesets are the ops that the whole program begins and ends with. -/
theorem ofGrammar_behind (g : AnnotatedGrammar) (library : Library) {n : Nat}
    (length : n = (places Ruleset.opCount g.grammar.rulesets).length) :
    (ofGrammar g library).root = 2 + n + 2 ∧ (ofGrammar g library).ops[2 + n]? = some .accept ∧
      (ofGrammar g library).ops[2 + n + 1]? = some .reject ∧
      (ofGrammar g library).ops[2 + n + 2]? = some (.call g.entry (2 + n) (2 + n + 1)) := by
  obtain ⟨acceptAt, root, accept, reject, call⟩ := ofGrammar_last g library
  obtain rfl : 2 + n = acceptAt := by
    rw [length, ← length_opPlaces 2 0]
    exact Nat.add_right_cancel (show _ + 2 = acceptAt + 2 from root)
  exact ⟨root, accept, reject, call⟩

end Program

end PegFlow
