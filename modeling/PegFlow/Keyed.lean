/-
# PegFlow.Keyed — association lists sorted by key

A map from strings is a list of pairs whose keys strictly increase. Strings are
compared by code points, which is also the order of their UTF-8 bytes. `insert`
replaces the entry of a key that is already there, so a list built by `ofList`
keeps the last of several entries with one key.
-/
namespace PegFlow

set_option autoImplicit false

/-- A list of entries; the maps among them are those with `Keyed.Sorted`. -/
abbrev Keyed (α : Type) := List (String × α)

namespace Keyed

variable {α : Type}

/-- The keys strictly increase: at most one entry a key, in the order of keys. -/
def Sorted (m : Keyed α) : Prop := m.Pairwise fun a b => a.1 < b.1

/-- Put `v` at `k`, in order, in place of what was there. -/
def insert (k : String) (v : α) : Keyed α → Keyed α
  | [] => [(k, v)]
  | (k', v') :: rest =>
    if k < k' then (k, v) :: (k', v') :: rest
    else if k = k' then (k, v) :: rest
    else (k', v') :: insert k v rest

/-- The first entry with the key `k`. -/
def get? (k : String) : Keyed α → Option α
  | [] => none
  | (k', v) :: rest => if k = k' then some v else get? k rest

def contains (k : String) (m : Keyed α) : Bool := (m.get? k).isSome

def keys (m : Keyed α) : List String := m.map Prod.fst

/-- Insert the entries of `entries` one after the other. -/
def insertAll (m : Keyed α) (entries : Keyed α) : Keyed α :=
  entries.foldl (fun m e => m.insert e.1 e.2) m

/-- The map of a list of entries, in which the last entry of a key counts. -/
def ofList (entries : List (String × α)) : Keyed α := insertAll [] entries

theorem get?_insert (k k' : String) (v : α) (m : Keyed α) :
    get? k (insert k' v m) = if k = k' then some v else get? k m := by
  induction m with
  | nil => rfl
  | cons e rest ih =>
      obtain ⟨k'', v'⟩ := e
      rw [insert]
      split
      · rfl
      · split
        · rename_i same
          subst same
          by_cases h : k = k' <;> simp [get?, h]
        · rename_i differ
          rw [get?, ih, get?]
          by_cases h : k = k'' <;> by_cases h' : k = k' <;> simp_all

theorem get?_append (k : String) (m m' : Keyed α) : get? k (m ++ m') = (get? k m).or (get? k m') := by
  induction m with
  | nil => rfl
  | cons e rest ih =>
      obtain ⟨k', v⟩ := e
      rw [List.cons_append, get?, get?, ih]
      split <;> rfl

/-- Of the entries of a key the last one counts. -/
theorem get?_insertAll (k : String) (m entries : Keyed α) :
    get? k (m.insertAll entries) = (get? k entries.reverse).or (get? k m) := by
  induction entries generalizing m with
  | nil => rfl
  | cons e rest ih =>
      obtain ⟨k', v⟩ := e
      rw [List.reverse_cons, get?_append]
      show get? k (insertAll (insert k' v m) rest) = _
      rw [ih, get?_insert]
      cases get? k rest.reverse with
      | some v' => rfl
      | none => by_cases h : k = k' <;> simp [get?, h]

theorem get?_ofList (k : String) (entries : List (String × α)) :
    get? k (ofList entries) = get? k entries.reverse := by
  rw [ofList, get?_insertAll]
  exact Option.or_none

theorem mem_of_get? {k : String} {v : α} {m : Keyed α} (found : get? k m = some v) : (k, v) ∈ m := by
  induction m with
  | nil => cases found
  | cons e rest ih =>
      obtain ⟨k', v'⟩ := e
      rw [get?] at found
      split at found
      · rename_i same
        cases found
        rw [same]
        exact List.mem_cons_self
      · exact List.mem_cons_of_mem _ (ih found)

theorem get?_of_mem_keys {k : String} {m : Keyed α} (h : k ∈ m.keys) : ∃ v, m.get? k = some v := by
  induction m with
  | nil => cases h
  | cons e rest ih =>
      obtain ⟨k', v'⟩ := e
      rw [get?]
      split
      · exact ⟨v', rfl⟩
      · rename_i other
        exact ih ((List.mem_cons.1 h).resolve_left other)

end Keyed

end PegFlow
