/-
# PegFlow.Proofs.Value.Format -- values read back from a format

A value that is without floats and has its objects sorted by key reads back from a lawful format
(`Value.read?_of_holds`): each kind is refused by the kinds that are tried before it.
-/
import PegFlow.Proofs.Format.Lawful
import PegFlow.Proofs.Value.Document
import PegFlow.Value.Format

namespace PegFlow.Value

set_option autoImplicit false

mutual

theorem toDatum_exact : ∀ {v : Value}, v.Floatless → v.toDatum.IsExact
  | .null, _ | .bool _, _ | .int _, _ | .string _, _ => trivial
  | .array _, free => itemsToDatum_exact free
  | .object _, free => membersToDatum_exact free

theorem itemsToDatum_exact : ∀ {vs : List Value}, AreFloatless vs → Datum.AreExact (itemsToDatum vs)
  | [], _ => trivial
  | _ :: _, free => ⟨toDatum_exact free.1, itemsToDatum_exact free.2⟩

theorem membersToDatum_exact : ∀ {ms : List (String × Value)}, HaveFloatless ms →
    Datum.HaveExact (membersToDatum ms)
  | [], _ => trivial
  | (_, _) :: _, free => ⟨toDatum_exact free.1, membersToDatum_exact free.2⟩

end

theorem itemsToDatum_eq_map (vs : List Value) : itemsToDatum vs = vs.map toDatum := by
  induction vs with
  | nil => rfl
  | cons v rest ih => rw [itemsToDatum, ih, List.map_cons]

theorem membersToDatum_eq_map (ms : List (String × Value)) :
    membersToDatum ms = ms.map fun m => (m.1, m.2.toDatum) := by
  induction ms with
  | nil => rfl
  | cons m rest ih => rw [membersToDatum, ih, List.map_cons]

/-- The value is without floats, and its objects are sorted by key. -/
@[mk_iff]
structure Storable (v : Value) : Prop where
  maps : v.IsMap
  free : v.Floatless

theorem Storable.items {vs : List Value} (storable : (array vs).Storable) : ∀ v ∈ vs, v.Storable := by
  obtain ⟨maps, free⟩ := storable
  replace maps : AreMaps vs := maps
  replace free : AreFloatless vs := free
  induction vs with
  | nil => exact List.forall_mem_nil _
  | cons v rest ih => exact List.forall_mem_cons.2 ⟨⟨maps.1, free.1⟩, ih maps.2 free.2⟩

theorem Storable.members {ms : List (String × Value)} (storable : (object ms).Storable) :
    ∀ m ∈ ms, m.2.Storable := by
  obtain ⟨⟨-, maps⟩, free⟩ := storable
  replace free : HaveFloatless ms := free
  induction ms with
  | nil => exact List.forall_mem_nil _
  | cons m rest ih => exact List.forall_mem_cons.2 ⟨⟨maps.1, free.1⟩, ih maps.2 free.2⟩

variable {F : Format} {Holds : F.Part → Datum → Prop}

/-- A value is read from the part that holds it. -/
theorem read?_of_holds (lawful : F.Lawful Holds) {fuel : Nat} {v : Value} {p : F.Part} (storable : v.Storable)
    (nested : v.toDatum.depth < fuel) (holds : Holds p v.toDatum) : read? F fuel p = some v := by
  induction fuel generalizing v p with
  | zero => cases nested
  | succ fuel ih =>
      cases v with
      | null => simp [read?, (lawful.isNull_iff holds).2 rfl]
      | bool b =>
          have refused := lawful.refused holds
          simp [toDatum, Datum.shape] at refused
          simp [read?, refused, lawful.bool holds]
      | int n =>
          have refused := lawful.refused holds
          simp [toDatum, Datum.shape] at refused
          simp [read?, refused, lawful.int holds]
      | float x => exact storable.free.elim
      | string s =>
          have refused := lawful.refused holds
          simp [toDatum, Datum.shape] at refused
          simp [read?, refused, lawful.string holds]
      | array items =>
          have refused := lawful.refused holds
          simp [toDatum, Datum.shape] at refused
          rw [toDatum, itemsToDatum_eq_map] at nested holds
          have list : F.list? (read? F fuel) p = some items :=
            lawful.list holds fun v member q => ih (storable.items v member) (Datum.depth_item nested member)
          simp [read?, refused, list]
      | object members =>
          have refused := lawful.refused holds
          simp [toDatum, Datum.shape] at refused
          have sorted : Keyed.Sorted members := storable.maps.1
          rw [toDatum, membersToDatum_eq_map] at nested holds
          have entries : (F.members? p).bind (List.mapM fun m => (read? F fuel m.2).map fun v => (m.1, v)) =
              some members :=
            lawful.entries holds sorted.nodup_keys fun m member q =>
              ih (storable.members m member) (Datum.depth_field m.1 _ nested (List.mem_map_of_mem member))
          simp [read?, refused, Format.list?, entries, ofMembers, sorted.ofList_eq]

end PegFlow.Value
