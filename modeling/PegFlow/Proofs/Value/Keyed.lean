/-
# PegFlow.Proofs.Value.Keyed -- maps stay sorted

Putting entries into a map keeps it sorted by key (`Keyed.Sorted.insertAll`), so a list of
entries always makes a map, with the keys of the list (`Keyed.sorted_ofList`,
`Keyed.mem_keys_ofList`). A map is the one that its own entries make
(`Keyed.Sorted.ofList_eq`), and maps with the same entry for each key are the same
(`Keyed.Sorted.ext`).
-/
import PegFlow.Keyed
import Mathlib.Data.List.Nodup

namespace PegFlow.Keyed

set_option autoImplicit false

variable {α : Type} {k k' : String} {v : α} {m : Keyed α} {e : String × α}

theorem mem_insert (h : e ∈ insert k v m) : e = (k, v) ∨ e ∈ m := by
  induction m with
  | nil => exact Or.inl (List.mem_singleton.1 h)
  | cons first rest ih =>
      rw [insert] at h
      split at h
      · exact List.mem_cons.1 h
      · split at h
        · exact (List.mem_cons.1 h).imp_right (List.mem_cons_of_mem first)
        · rcases List.mem_cons.1 h with rfl | later
          · exact Or.inr List.mem_cons_self
          · exact (ih later).imp_right (List.mem_cons_of_mem first)

theorem mem_keys_insert : k ∈ keys (insert k' v m) ↔ k = k' ∨ k ∈ keys m := by
  induction m with
  | nil => rw [insert, keys, List.map_singleton, List.mem_singleton, keys, List.map_nil]; simp
  | cons first rest ih =>
      rw [insert]
      split
      · exact List.mem_cons
      · split
        · rename_i same
          simp only [keys, List.map_cons, List.mem_cons, ← same, ← or_assoc, or_self]
        · simp only [keys, List.map_cons, List.mem_cons] at ih ⊢
          rw [ih, or_left_comm]

instance (m : Keyed α) : Decidable m.Sorted := inferInstanceAs (Decidable (m.Pairwise fun a b => a.1 < b.1))

/-- Lists that ascend by a key are the same when they have the same members. -/
theorem eq_of_ascending {β : Type} (key : β → String) {xs ys : List β}
    (ascending : xs.Pairwise fun a b => key a < key b) (ascending' : ys.Pairwise fun a b => key a < key b)
    (same : ∀ x, x ∈ xs ↔ x ∈ ys) : xs = ys := by
  have nodup : ∀ {zs : List β}, (zs.Pairwise fun a b => key a < key b) → zs.Nodup := by
    intro zs ascending
    refine List.Pairwise.imp (fun {a b} lt => ?_) ascending
    rintro rfl
    exact String.lt_irrefl _ lt
  refine List.Perm.eq_of_pairwise (fun a b _ _ lt gt => ?_) ascending ascending' ?_
  · exact absurd (String.lt_trans lt gt) (String.lt_irrefl _)
  · exact (List.perm_ext_iff_of_nodup (nodup ascending) (nodup ascending')).2 same

namespace Sorted

theorem nil : Sorted ([] : Keyed α) := List.Pairwise.nil

theorem insert (sorted : Sorted m) : Sorted (insert k v m) := by
  induction m with
  | nil => exact List.pairwise_singleton _ _
  | cons first rest ih =>
      obtain ⟨above, later⟩ := List.pairwise_cons.1 sorted
      rw [Keyed.insert]
      split
      · rename_i lt
        refine List.pairwise_cons.2 ⟨fun e member => ?_, sorted⟩
        rcases List.mem_cons.1 member with rfl | member
        · exact lt
        · exact String.lt_trans lt (above e member)
      · split
        · rename_i same
          subst same
          exact List.pairwise_cons.2 ⟨above, later⟩
        · rename_i notBelow other
          refine List.pairwise_cons.2 ⟨fun e member => ?_, ih later⟩
          rcases mem_insert member with rfl | member
          · exact Std.lt_of_le_of_ne (String.not_lt.1 notBelow) (Ne.symm other)
          · exact above e member

theorem insertAll (sorted : Sorted m) (entries : Keyed α) : Sorted (m.insertAll entries) := by
  induction entries generalizing m with
  | nil => exact sorted
  | cons e rest ih => exact ih sorted.insert

/-- Entries that come behind all others are put at the end. -/
theorem insert_last (sorted : Sorted (m ++ [(k, v)])) : Keyed.insert k v m = m ++ [(k, v)] := by
  induction m with
  | nil => rfl
  | cons first rest ih =>
      obtain ⟨above, later⟩ := List.pairwise_cons.1 sorted
      have lt : first.1 < k := above (k, v) (by simp)
      have other : k ≠ first.1 := fun same => String.lt_irrefl k (by rwa [← same] at lt)
      rw [Keyed.insert, if_neg fun below => String.lt_irrefl k (String.lt_trans below lt), if_neg other, ih later]
      rfl

theorem insertAll_eq {entries : Keyed α} (sorted : Sorted (m ++ entries)) : m.insertAll entries = m ++ entries := by
  induction entries generalizing m with
  | nil => exact (List.append_nil m).symm
  | cons e rest ih =>
      have split : m ++ e :: rest = (m ++ [e]) ++ rest := by simp
      rw [split] at sorted ⊢
      have here : Keyed.insert e.1 e.2 m = m ++ [e] := insert_last (List.pairwise_append.1 sorted).1
      show Keyed.insertAll (Keyed.insert e.1 e.2 m) rest = _
      rw [here]
      exact ih sorted

/-- A map is the map of its entries. -/
theorem ofList_eq (sorted : Sorted m) : ofList m = m := insertAll_eq sorted

theorem nodup_keys (sorted : Sorted m) : (m.map Prod.fst).Nodup := by
  refine List.pairwise_map.2 (List.Pairwise.imp (fun {a b} lt same => ?_) sorted)
  exact String.lt_irrefl b.1 (same ▸ lt)

theorem get?_eq_some_iff (sorted : Sorted m) : get? k m = some v ↔ (k, v) ∈ m := by
  refine ⟨mem_of_get?, fun member => ?_⟩
  induction m with
  | nil => cases member
  | cons first rest ih =>
      obtain ⟨above, later⟩ := List.pairwise_cons.1 sorted
      rw [get?]
      rcases List.mem_cons.1 member with rfl | member
      · rw [if_pos rfl]
      · have lt : first.1 < k := above (k, v) member
        have other : k ≠ first.1 := fun same => String.lt_irrefl k (by rwa [← same] at lt)
        rw [if_neg other, ih later member]

theorem ext {m' : Keyed α} (sorted : Sorted m) (sorted' : Sorted m') (same : ∀ k, get? k m = get? k m') : m = m' := by
  refine eq_of_ascending Prod.fst sorted sorted' fun e => ?_
  rw [← sorted.get?_eq_some_iff, same, sorted'.get?_eq_some_iff]

/-- Other values under the same keys. -/
theorem map_values {β : Type} (sorted : Sorted m) (f : α → β) : Sorted (m.map fun e => (e.1, f e.2)) :=
  List.pairwise_map.2 sorted

end Sorted

theorem sorted_ofList (entries : List (String × α)) : Sorted (ofList entries) := Sorted.nil.insertAll entries

theorem mem_keys_insertAll {entries : Keyed α} :
    k ∈ keys (m.insertAll entries) ↔ k ∈ keys m ∨ k ∈ keys entries := by
  induction entries generalizing m with
  | nil => simp [insertAll, keys]
  | cons e rest ih =>
      show k ∈ keys (insertAll (insert e.1 e.2 m) rest) ↔ _
      rw [ih, mem_keys_insert, or_comm (a := k = e.1), or_assoc]
      simp [keys]

theorem mem_keys_ofList {entries : List (String × α)} : k ∈ keys (ofList entries) ↔ k ∈ keys entries := by
  rw [ofList, mem_keys_insertAll]
  exact or_iff_right List.not_mem_nil

/-- The map that gives each key the value of `f`. -/
theorem sorted_map_keys {keys : List String} (ascending : keys.Pairwise (· < ·)) (f : String → α) :
    Sorted (keys.map fun key => (key, f key)) := List.pairwise_map.2 ascending

theorem get?_map_keys (keys : List String) (f : String → α) :
    get? k (keys.map fun key => (key, f key)) = if k ∈ keys then some (f k) else none := by
  induction keys with
  | nil => rfl
  | cons first rest ih =>
      rw [List.map_cons, get?, ih]
      by_cases same : k = first <;> simp [same]

theorem get?_eq_none (absent : k ∉ keys m) : get? k m = none := by
  cases found : get? k m with
  | none => rfl
  | some v => exact absurd (List.mem_map_of_mem (mem_of_get? found)) absent

theorem exists_split_of_get? (found : get? k m = some v) :
    ∃ before after, m = before ++ (k, v) :: after ∧ k ∉ keys before := by
  induction m with
  | nil => cases found
  | cons first rest ih =>
      rw [get?] at found
      split at found
      · rename_i same
        cases found
        exact ⟨[], rest, by rw [same]; rfl, List.not_mem_nil⟩
      · rename_i other
        obtain ⟨before, after, rfl, absent⟩ := ih found
        exact ⟨first :: before, after, rfl, List.not_mem_cons_of_ne_of_not_mem other absent⟩

/-- The map of a list has for each key the value of its last entry. -/
theorem mem_ofList_iff {entries : List (String × α)} : (k, v) ∈ ofList entries ↔
    ∃ before after, entries = before ++ (k, v) :: after ∧ k ∉ keys after := by
  rw [← (sorted_ofList entries).get?_eq_some_iff, get?_ofList]
  constructor
  · intro found
    obtain ⟨after, before, same, absent⟩ := exists_split_of_get? found
    refine ⟨before.reverse, after.reverse, ?_, by rwa [keys, List.map_reverse, List.mem_reverse]⟩
    rw [← List.reverse_reverse entries, same, List.reverse_append, List.reverse_cons, List.append_assoc]
    rfl
  · rintro ⟨before, after, rfl, absent⟩
    have unseen : get? k after.reverse = none := get?_eq_none (by rwa [keys, List.map_reverse, List.mem_reverse])
    rw [List.reverse_append, List.reverse_cons, List.append_assoc, get?_append, unseen, Option.none_or,
      List.singleton_append, get?, if_pos rfl]

/-- Of entries with different keys all are kept. -/
theorem ofList_perm {entries : List (String × α)} (distinct : (entries.map Prod.fst).Nodup) :
    (ofList entries).Perm entries := by
  have nodup := (sorted_ofList entries).nodup_keys
  refine (List.perm_ext_iff_of_nodup (List.Nodup.of_map _ nodup) (List.Nodup.of_map _ distinct)).2 fun e => ?_
  obtain ⟨k, v⟩ := e
  rw [mem_ofList_iff]
  constructor
  · rintro ⟨before, after, rfl, -⟩
    simp
  · intro member
    obtain ⟨before, after, rfl⟩ := List.append_of_mem member
    rw [List.map_append, List.map_cons] at distinct
    have absent := (List.nodup_cons.1 (List.nodup_append.1 distinct).2.1).1
    exact ⟨before, after, rfl, absent⟩

/-- The map of entries with different keys does not depend on their order. -/
theorem Sorted.ofList_eq_of_perm {entries : List (String × α)} (sorted : Sorted m) (same : entries.Perm m) :
    ofList entries = m := by
  have distinct : (entries.map Prod.fst).Nodup := (same.map Prod.fst).nodup_iff.2 sorted.nodup_keys
  refine eq_of_ascending Prod.fst (sorted_ofList entries) sorted fun e => ?_
  rw [(ofList_perm distinct).mem_iff, same.mem_iff]

end PegFlow.Keyed
