/-
# PegFlow.Proofs.Grammar.Names -- rulesets by their names

A grammar has an entry exactly when its names are distinct and one of them is `return`
(`Grammar.entry?_eq_ok_iff`). The index then gives of every name the place of its ruleset
(`Grammar.indexed_get?_iff`).
-/
import PegFlow.Grammar.References
import Mathlib.Data.List.Nodup

namespace PegFlow

set_option autoImplicit false

/-- Without repetitions an item has one place. -/
theorem List.place_unique {α : Type} {xs : List α} (distinct : xs.Nodup) {i j : Nat} {x : α}
    (here : xs[i]? = some x) (there : xs[j]? = some x) : i = j :=
  (List.getElem?_inj (List.getElem?_eq_some_iff.1 here).1 distinct).1 (here.trans there.symm)

namespace Grammar

/-- No ruleset is found to repeat a name exactly when names are distinct and none of them was
seen before. -/
theorem firstRepeated?_eq_none_iff {seen : List String} {rulesets : List Ruleset} :
    firstRepeated? seen rulesets = none ↔
      (rulesets.map Ruleset.name).Nodup ∧ ∀ r ∈ rulesets, r.name ∉ seen := by
  induction rulesets generalizing seen with
  | nil => simp [firstRepeated?]
  | cons r rest ih =>
      rw [firstRepeated?]
      by_cases known : r.name ∈ seen
      · simp [known]
      · rw [if_neg (by simpa using known), ih, List.map_cons, List.nodup_cons, List.forall_mem_cons]
        constructor
        · rintro ⟨distinct, new⟩
          refine ⟨⟨fun again => ?_, distinct⟩, known, fun s member unseen => ?_⟩
          · obtain ⟨s, member, same⟩ := List.mem_map.1 again
            exact new s member (same ▸ List.mem_cons_self)
          · exact new s member (List.mem_cons_of_mem _ unseen)
        · rintro ⟨⟨new, distinct⟩, -, unseen⟩
          refine ⟨distinct, fun s member seen => ?_⟩
          rcases List.mem_cons.1 seen with same | before
          · exact new (same ▸ List.mem_map_of_mem member)
          · exact unseen s member before

variable {g : Grammar} {name : String} {i : Nat}

theorem getElem?_of_indexOf? (h : g.indexOf? name = some i) : g.names[i]? = some name := by
  obtain ⟨lt, same, -⟩ := List.findIdx?_eq_some_iff_getElem.1 h
  rw [names, List.getElem?_map, List.getElem?_eq_getElem lt]
  exact congrArg some (eq_of_beq same)

/-- Where names are distinct, a ruleset is found at the place of its name. -/
theorem indexOf?_eq_some_iff (distinct : g.names.Nodup) :
    g.indexOf? name = some i ↔ g.names[i]? = some name := by
  refine ⟨getElem?_of_indexOf?, fun here => ?_⟩
  obtain ⟨r, member, rfl⟩ := List.mem_map.1 (List.mem_of_getElem? here)
  cases found : g.indexOf? r.name with
  | some j => rw [List.place_unique distinct here (getElem?_of_indexOf? found)]
  | none =>
      have other := List.findIdx?_eq_none_iff.1 found r member
      simp at other

/-- A grammar has an entry exactly when its names are distinct, and it is the place of
`return`. -/
theorem entry?_eq_ok_iff : g.entry? = .ok i ↔ g.names.Nodup ∧ g.names[i]? = some entryName := by
  unfold entry?
  constructor
  · intro h
    split at h
    · cases h
    · split at h
      · cases h
      · rename_i distinct
        split at h
        · rename_i found
          cases h
          exact ⟨(firstRepeated?_eq_none_iff.1 distinct).1, getElem?_of_indexOf? found⟩
        · cases h
  · rintro ⟨distinct, here⟩
    split
    · rename_i first second rest same
      have twice : ((first :: second :: rest).map Ruleset.name).Nodup := by
        rw [← same]
        exact distinct.sublist (List.filter_sublist.map Ruleset.name)
      have named : ∀ r ∈ first :: second :: rest, r.name = entryName := by
        intro r member
        rw [← same] at member
        exact eq_of_beq (List.mem_filter.1 member).2
      have first' := named first List.mem_cons_self
      have second' := named second (List.mem_cons_of_mem _ List.mem_cons_self)
      simp [first', second'] at twice
    · rw [firstRepeated?_eq_none_iff.2 ⟨distinct, by simp⟩, (indexOf?_eq_some_iff distinct).2 here]

/-- The index finds a name only at a place where it is. -/
theorem getElem?_of_indexed (h : g.indexed.lookup.get? name = some i) : g.names[i]? = some name := by
  rw [indexed, Keyed.get?_ofList] at h
  exact List.mem_zipIdx_iff_getElem?.1 (List.mem_reverse.1 (Keyed.mem_of_get? h))

/-- Where names are distinct the index gives of each the place. -/
theorem indexed_get?_iff (distinct : g.names.Nodup) :
    g.indexed.lookup.get? name = some i ↔ g.names[i]? = some name := by
  refine ⟨getElem?_of_indexed, fun here => ?_⟩
  have known : name ∈ Keyed.keys g.names.zipIdx.reverse := by
    rw [Keyed.keys, List.map_reverse, List.mem_reverse, List.zipIdx_map_fst]
    exact List.mem_of_getElem? here
  obtain ⟨j, found⟩ := Keyed.get?_of_mem_keys known
  rw [← Keyed.get?_ofList] at found
  rw [List.place_unique distinct here (getElem?_of_indexed found)]
  exact found

end Grammar

end PegFlow
