/-
# PegFlow.Proofs.Value.Document -- values read back from their trees

What is relied on of a library of JSON trees is that it keeps an integer an integer and a finite
float a float, and of the members of an object one of each key (`JsonLibrary.Lawful`). Then a
value whose objects are sorted by key reads back from its tree with null for each float that is
not finite (`Value.ofTree_toTree`), and so as itself exactly when all its floats are finite
(`Value.reads_back_iff_finite`).

A value without floats equals itself, as no value with a float that is not a number does.
-/
import PegFlow.Proofs.Value.Keyed
import PegFlow.Value.Json

namespace PegFlow

set_option autoImplicit false

namespace JsonLibrary

/-- What is relied on of a library of JSON trees. -/
structure Lawful (L : JsonLibrary) : Prop where
  int?_ofInt (n : Int64) : L.int? (L.ofInt n) = some n
  ofFloat?_finite {x : Float} (finite : x.isFinite = true) :
    ∃ n, L.ofFloat? x = some n ∧ L.int? n = none ∧ L.float? n = some x
  ofFloat?_other {x : Float} (other : x.isFinite = false) : L.ofFloat? x = none
  collect_perm {members : List (String × JsonTree L.Number)} (distinct : (members.map Prod.fst).Nodup) :
    (L.collect members).Perm members

end JsonLibrary

/-- An integer of 64 bits with a sign stays one. -/
theorem Json.int64?_toInt (n : Int64) : int64? n.toInt = some n := by
  rw [int64?, if_pos ⟨n.minValue_le_toInt, n.toInt_le⟩, Int64.ofInt_toInt]

theorem Json.library_lawful : library.Lawful where
  int?_ofInt := int64?_toInt
  ofFloat?_finite {x} finite := ⟨.float x, if_pos finite, rfl, rfl⟩
  ofFloat?_other {x} other := if_neg (by simp [other])
  collect_perm distinct := Keyed.ofList_perm distinct

namespace Value

mutual

/-- The value holds no float. -/
def Floatless : Value → Prop
  | .float _ => False
  | .array items => AreFloatless items
  | .object members => HaveFloatless members
  | _ => True

def AreFloatless : List Value → Prop
  | [] => True
  | v :: rest => v.Floatless ∧ AreFloatless rest

def HaveFloatless : List (String × Value) → Prop
  | [] => True
  | (_, v) :: rest => v.Floatless ∧ HaveFloatless rest

end

/-! ## Floats that are not finite -/

mutual

/-- The value with null in the place of each float that is not finite. -/
def onlyFinite : Value → Value
  | .float x => if x.isFinite then .float x else .null
  | .array items => .array (itemsOnlyFinite items)
  | .object members => .object (membersOnlyFinite members)
  | .null => .null
  | .bool b => .bool b
  | .int n => .int n
  | .string s => .string s

def itemsOnlyFinite : List Value → List Value
  | [] => []
  | v :: rest => v.onlyFinite :: itemsOnlyFinite rest

def membersOnlyFinite : List (String × Value) → List (String × Value)
  | [] => []
  | (k, v) :: rest => (k, v.onlyFinite) :: membersOnlyFinite rest

end

mutual

/-- Every float in the value is finite. -/
def Finite : Value → Prop
  | .float x => x.isFinite = true
  | .array items => AreFinite items
  | .object members => HaveFinite members
  | _ => True

def AreFinite : List Value → Prop
  | [] => True
  | v :: rest => v.Finite ∧ AreFinite rest

def HaveFinite : List (String × Value) → Prop
  | [] => True
  | (_, v) :: rest => v.Finite ∧ HaveFinite rest

end

mutual

theorem onlyFinite_eq_iff : ∀ {v : Value}, v.onlyFinite = v ↔ v.Finite
  | .null | .bool _ | .int _ | .string _ => iff_of_true rfl trivial
  | .float x => by
      rw [onlyFinite, Finite]
      by_cases finite : x.isFinite = true
      · simp [finite]
      · simp [finite]
  | .array items => by
      rw [onlyFinite, Finite, Value.array.injEq, itemsOnlyFinite_eq_iff]
  | .object members => by
      rw [onlyFinite, Finite, Value.object.injEq, membersOnlyFinite_eq_iff]

theorem itemsOnlyFinite_eq_iff : ∀ {vs : List Value}, itemsOnlyFinite vs = vs ↔ AreFinite vs
  | [] => iff_of_true rfl trivial
  | v :: rest => by
      rw [itemsOnlyFinite, AreFinite, List.cons.injEq, onlyFinite_eq_iff, itemsOnlyFinite_eq_iff]

theorem membersOnlyFinite_eq_iff : ∀ {ms : List (String × Value)}, membersOnlyFinite ms = ms ↔ HaveFinite ms
  | [] => iff_of_true rfl trivial
  | (k, v) :: rest => by
      rw [membersOnlyFinite, HaveFinite, List.cons.injEq, Prod.mk.injEq, eq_self, true_and, onlyFinite_eq_iff,
        membersOnlyFinite_eq_iff]

end

/-- The members keep their keys and their order. -/
theorem membersOnlyFinite_eq_map (ms : List (String × Value)) :
    membersOnlyFinite ms = ms.map fun m => (m.1, m.2.onlyFinite) := by
  induction ms with
  | nil => rfl
  | cons m rest ih =>
      obtain ⟨k, v⟩ := m
      rw [membersOnlyFinite, ih, List.map_cons]

section

variable {L : JsonLibrary}

theorem map_fst_membersToTree (ms : List (String × Value)) : (membersToTree L ms).map Prod.fst = ms.map Prod.fst := by
  induction ms with
  | nil => rfl
  | cons m rest ih => rw [membersToTree, List.map_cons, ih, List.map_cons]

theorem membersOfTree_eq_map (ms : List (String × JsonTree L.Number)) :
    membersOfTree L ms = ms.map fun m => (m.1, ofTree L m.2) := by
  induction ms with
  | nil => rfl
  | cons m rest ih => rw [membersOfTree, ih, List.map_cons]

/-- The members of an object, in whatever order its tree keeps them, make the object again. -/
theorem ofMembers_collect (lawful : L.Lawful) {ms : List (String × Value)} (sorted : Keyed.Sorted ms)
    (back : membersOfTree L (membersToTree L ms) = membersOnlyFinite ms) :
    ofMembers (membersOfTree L (L.collect (membersToTree L ms))) = .object (membersOnlyFinite ms) := by
  have distinct : ((membersToTree L ms).map Prod.fst).Nodup := by
    rw [map_fst_membersToTree]
    exact sorted.nodup_keys
  have sorted' : Keyed.Sorted (membersOnlyFinite ms) := by
    rw [membersOnlyFinite_eq_map]
    exact sorted.map_values onlyFinite
  have same : (membersOfTree L (L.collect (membersToTree L ms))).Perm (membersOnlyFinite ms) := by
    rw [← back, membersOfTree_eq_map, membersOfTree_eq_map]
    exact (lawful.collect_perm distinct).map _
  rw [ofMembers, sorted'.ofList_eq_of_perm same]

mutual

theorem ofTree_toTree (lawful : L.Lawful) : ∀ {v : Value}, v.IsMap → ofTree L (v.toTree L) = v.onlyFinite
  | .null, _ | .bool _, _ | .string _, _ => rfl
  | .int n, _ => by
      rw [toTree, ofTree, lawful.int?_ofInt]
      rfl
  | .float x, _ => by
      rw [toTree, onlyFinite]
      cases finite : x.isFinite with
      | true =>
          obtain ⟨n, made, notInt, same⟩ := lawful.ofFloat?_finite finite
          rw [made, if_pos rfl]
          show ofTree L (.number n) = .float x
          rw [ofTree, notInt, same, Option.getD_some]
      | false =>
          rw [lawful.ofFloat?_other finite]
          rfl
  | .array items, maps => by
      rw [toTree, ofTree, itemsOfTree_itemsToTree lawful maps, onlyFinite]
  | .object members, maps => by
      rw [toTree, ofTree, ofMembers_collect lawful maps.1 (membersOfTree_membersToTree lawful maps.2), onlyFinite]

theorem itemsOfTree_itemsToTree (lawful : L.Lawful) : ∀ {vs : List Value}, AreMaps vs →
    itemsOfTree L (itemsToTree L vs) = itemsOnlyFinite vs
  | [], _ => rfl
  | v :: rest, maps => by
      rw [itemsToTree, itemsOfTree, ofTree_toTree lawful maps.1, itemsOfTree_itemsToTree lawful maps.2,
        itemsOnlyFinite]

theorem membersOfTree_membersToTree (lawful : L.Lawful) : ∀ {ms : List (String × Value)}, HaveMaps ms →
    membersOfTree L (membersToTree L ms) = membersOnlyFinite ms
  | [], _ => rfl
  | (k, v) :: rest, maps => by
      rw [membersToTree, membersOfTree, ofTree_toTree lawful maps.1, membersOfTree_membersToTree lawful maps.2,
        membersOnlyFinite]

end

/-- A value reads back from its tree with null for each float that is not finite: as itself
exactly when all its floats are finite. -/
theorem reads_back_iff_finite (lawful : L.Lawful) {v : Value} (maps : v.IsMap) :
    ofTree L (v.toTree L) = v.onlyFinite ∧ (ofTree L (v.toTree L) = v ↔ v.Finite) := by
  have read := ofTree_toTree lawful maps
  refine ⟨read, ?_⟩
  rw [read]
  exact onlyFinite_eq_iff

end

/-- The least integer, a whole float and two floats that are not finite, one of them deeper. -/
theorem reads_back_iff_finite_of_nested : Json.library.Lawful ∧ ∃ v : Value,
    v = object [("a", .array [.int Int64.minValue, .float 2, .float (1 / 0)]),
      ("b", .object [("x", .float (0 / 0))])] ∧ v.IsMap ∧
    ofTree Json.library (v.toTree Json.library) = object [("a", .array [.int Int64.minValue, .float 2, .null]),
      ("b", .object [("x", .null)])] ∧ ¬ v.Finite := by
  have maps : (object [("a", .array [.int Int64.minValue, .float 2, .float (1 / 0)]),
      ("b", .object [("x", .float (0 / 0))])]).IsMap := by
    have ordered : "a" < "b" := by decide
    exact ⟨List.pairwise_pair.2 ordered, ⟨trivial, trivial, trivial, trivial⟩,
      ⟨List.pairwise_singleton _ _, trivial, trivial⟩, trivial⟩
  have whole : (2 : Float).isFinite = true := by decide
  have infinite : (1 / 0 : Float).isFinite = false := by decide
  have undefined : (0 / 0 : Float).isFinite = false := by decide
  refine ⟨Json.library_lawful, _, rfl, maps, ?_, ?_⟩
  · rw [(reads_back_iff_finite Json.library_lawful maps).1]
    simp [onlyFinite, itemsOnlyFinite, membersOnlyFinite, whole, infinite, undefined]
  · simp [Finite, AreFinite, HaveFinite, infinite]

mutual

theorem beq_self : ∀ {v : Value}, v.Floatless → v.beq v = true
  | .null, _ => rfl
  | .bool b, _ => beq_self_eq_true b
  | .int n, _ => beq_self_eq_true n
  | .string s, _ => beq_self_eq_true s
  | .array _, free => beqItems_self free
  | .object _, free => beqMembers_self free

theorem beqItems_self : ∀ {vs : List Value}, AreFloatless vs → beqItems vs vs = true
  | [], _ => rfl
  | _ :: _, free => by rw [beqItems, beq_self free.1, beqItems_self free.2]; rfl

theorem beqMembers_self : ∀ {ms : List (String × Value)}, HaveFloatless ms → beqMembers ms ms = true
  | [], _ => rfl
  | (k, _) :: _, free => by rw [beqMembers, beq_self free.1, beqMembers_self free.2, beq_self_eq_true]; rfl

end

end Value

end PegFlow
