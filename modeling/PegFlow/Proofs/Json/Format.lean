/-
# PegFlow.Proofs.Json.Format -- JSON is a lawful format

A part holds a datum if it is the document of the datum, and that is exact (`Json.Holds`). The
document of a datum has integers of 64 bits and no void parts, and is nested as deep as the datum,
so it reads back from its text; and what is asked of it is found (`Json.format_lawful`).
-/
import PegFlow.Json.Format
import PegFlow.Proofs.Format.Lawful
import PegFlow.Proofs.Json.Text
import PegFlow.Proofs.Value.Document

namespace PegFlow

set_option autoImplicit false

namespace Datum

theorem itemsToJson_eq_map (ds : List Datum) : itemsToJson ds = ds.map toJson := by
  induction ds with
  | nil => rfl
  | cons d rest ih => rw [itemsToJson, ih, List.map_cons]

theorem membersToJson_eq_map (ms : List (String × Datum)) :
    membersToJson ms = ms.map fun m => (m.1, m.2.toJson) := by
  induction ms with
  | nil => rfl
  | cons m rest ih => rw [membersToJson, ih, List.map_cons]

mutual

theorem toJson_exact : ∀ {d : Datum}, d.IsExact → d.toJson.IsExact
  | .null, _ | .bool _, _ | .char _, _ | .string _, _ | .unit _, _ => trivial
  | .int n, _ => by
      have low := n.le_toInt
      have high := n.toInt_lt
      show -0x8000000000000000 ≤ n.toInt ∧ n.toInt ≤ 0xFFFFFFFFFFFFFFFF
      omega
  | .nat n, exact => by
      have small : n < 0x10000000000000000 := exact
      show -0x8000000000000000 ≤ (n : Int) ∧ (n : Int) ≤ 0xFFFFFFFFFFFFFFFF
      omega
  | .array _, exact => itemsToJson_exact exact
  | .map _, exact => membersToJson_exact exact
  | .record _, exact => membersToJson_exact exact
  | .tagged _ _ _, exact => ⟨trivial, membersToJson_exact exact⟩
  | .variant _ content, exact => ⟨toJson_exact (d := content) exact, trivial⟩

theorem itemsToJson_exact : ∀ {ds : List Datum}, AreExact ds → Json.AreExact (itemsToJson ds)
  | [], _ => trivial
  | _ :: _, exact => ⟨toJson_exact exact.1, itemsToJson_exact exact.2⟩

theorem membersToJson_exact : ∀ {ms : List (String × Datum)}, HaveExact ms → Json.HaveExact (membersToJson ms)
  | [], _ => trivial
  | (_, _) :: _, exact => ⟨toJson_exact exact.1, membersToJson_exact exact.2⟩

end

mutual

/-- The document is nested as deep as the datum. -/
theorem depth_toJson : ∀ d : Datum, d.toJson.depth = d.depth
  | .null | .bool _ | .int _ | .nat _ | .char _ | .string _ | .unit _ => rfl
  | .float x => by
      rw [toJson]
      split <;> rfl
  | .array items => congrArg (· + 1) (depth_itemsToJson items)
  | .map members => congrArg (· + 1) (depth_membersToJson members)
  | .record fields => congrArg (· + 1) (depth_membersToJson fields)
  | .tagged _ _ fields => by
      rw [toJson, depth, Json.depth, Json.depthOfMembers, depth_membersToJson fields]
      exact congrArg (· + 1) (Nat.zero_max _)
  | .variant _ content => by
      rw [toJson, depth, Json.depth, Json.depthOfMembers, depth_toJson content]
      exact congrArg (· + 1) (Nat.max_zero _)

theorem depth_itemsToJson : ∀ ds : List Datum, Json.depthOfItems (itemsToJson ds) = depthOfItems ds
  | [] => rfl
  | d :: rest => by
      rw [itemsToJson, Json.depthOfItems, depth_toJson d, depth_itemsToJson rest, depthOfItems]

theorem depth_membersToJson : ∀ ms : List (String × Datum),
    Json.depthOfMembers (membersToJson ms) = depthOfMembers ms
  | [] => rfl
  | (_, d) :: rest => by
      rw [membersToJson, Json.depthOfMembers, depth_toJson d, depth_membersToJson rest, depthOfMembers]

end

end Datum

namespace Json

/-- A part is the document of a datum, which is exact. -/
inductive Holds : Bool × Json → Datum → Prop
  | document (inside : Bool) {d : Datum} (exact : d.IsExact) : Holds (inside, d.toJson) d

/-- A key that is not repeated is found. -/
theorem member?_membersToJson {fs : List (String × Datum)} (distinct : (fs.map Prod.fst).Nodup) (name : String) :
    member? (Datum.membersToJson fs) name = some ((fs.lookup name).map Datum.toJson) := by
  induction fs with
  | nil => rfl
  | cons f rest ih =>
      obtain ⟨key, d⟩ := f
      obtain ⟨absent, later⟩ := List.nodup_cons.1 distinct
      rw [Datum.membersToJson, List.lookup_cons]
      by_cases here : key = name
      · subst here
        have none : (Datum.membersToJson rest).filter (·.1 == key) = [] := by
          rw [Datum.membersToJson_eq_map, List.filter_eq_nil_iff, List.forall_mem_map]
          intro m member same
          exact absent (List.mem_map.2 ⟨m, member, eq_of_beq same⟩)
        simp [member?, none]
      · have other : (key == name) = false := beq_eq_false_iff_ne.2 here
        have other' : (name == key) = false := beq_eq_false_iff_ne.2 (Ne.symm here)
        rw [other', ← ih later, member?, List.filter_cons_of_neg (by simp [other])]
        rfl

theorem fields?_membersToJson {fs : List (String × Datum)} (distinct : (fs.map Prod.fst).Nodup) (names : List String) :
    fields? names (.object (Datum.membersToJson fs)) =
      some (names.map fun name => (fs.lookup name).map Datum.toJson) := by
  show names.mapM (member? (Datum.membersToJson fs)) = _
  induction names with
  | nil => rfl
  | cons name rest ih => simp [member?_membersToJson distinct, ih]

/-- A choice gives back its tag and the record that it marks. -/
theorem tagged?_toJson {inside : Bool} {key tag : String} {fs : List (String × Datum)}
    (exact : (Datum.tagged key tag fs).IsExact) (untagged : key ∉ fs.map Prod.fst) :
    tagged? inside key (Datum.tagged key tag fs).toJson =
      some (.string tag, .object (Datum.membersToJson fs)) := by
  have solid := (Datum.toJson_exact exact).isSolid
  have others : ∀ m ∈ Datum.membersToJson fs, m.1 ≠ key := by
    rw [Datum.membersToJson_eq_map, List.forall_mem_map]
    rintro m member rfl
    exact untagged (List.mem_map_of_mem member)
  have none : (Datum.membersToJson fs).filter (·.1 == key) = [] := by
    rw [List.filter_eq_nil_iff]
    intro m member
    simpa using others m member
  have all : (Datum.membersToJson fs).filter (·.1 != key) = Datum.membersToJson fs := by
    rw [List.filter_eq_self]
    intro m member
    simpa using others m member
  rw [Datum.toJson] at solid ⊢
  rw [tagged?, solid, Bool.or_true, if_pos rfl]
  simp [member?, none, all]

/-- A name is found at its position. -/
theorem findIdx?_name {names : List String} (distinct : names.Nodup) {name : String} {i : Nat}
    (position : names[i]? = some name) : names.findIdx? (· == name) = some i := by
  induction names generalizing i with
  | nil => cases position
  | cons first rest ih =>
      obtain ⟨absent, distinct⟩ := List.nodup_cons.1 distinct
      cases i with
      | zero =>
          cases position
          simp [List.findIdx?_cons]
      | succ i =>
          have later : rest[i]? = some name := position
          have other : (first == name) = false := by
            rw [beq_eq_false_iff_ne]
            rintro rfl
            exact absent (List.mem_of_getElem? later)
          simp [List.findIdx?_cons, other, ih distinct later]

/-- JSON is a lawful format. -/
theorem format_lawful : format.Lawful Holds where
  text {d} exact nested := by
    have back := ofText?_toText (Datum.toJson_exact exact) (by rwa [Datum.depth_toJson])
    exact ⟨_, (false, d.toJson), rfl, congrArg (Option.map (false, ·)) back, .document false exact⟩
  isNull_iff {p d} holds := by
    obtain ⟨inside, exact⟩ := holds
    cases d <;> simp [Datum.toJson, isNull, Datum.shape, Datum.IsExact] at exact ⊢
  bool {p b} holds := by
    obtain ⟨inside, exact⟩ := holds
    rfl
  bool_none {p d} holds other := by
    obtain ⟨inside, exact⟩ := holds
    cases d <;> simp [Datum.toJson, bool?, Datum.shape, Datum.IsExact] at exact other ⊢
  int {p n} holds := by
    obtain ⟨inside, exact⟩ := holds
    exact int64?_toInt n
  int_none {p d} holds other := by
    obtain ⟨inside, exact⟩ := holds
    cases d <;> simp [Datum.toJson, int?, Datum.shape, Datum.IsExact] at exact other ⊢
  float_none {p d} holds other := by
    obtain ⟨inside, exact⟩ := holds
    cases d <;> simp [Datum.toJson, float?, Datum.shape, Datum.IsExact] at exact other ⊢
  nat {p n} holds := by
    obtain ⟨inside, exact⟩ := holds
    have small : n < UInt64.size := exact
    simp [Datum.toJson, nat?, small]
  char {p c} holds := by
    obtain ⟨inside, exact⟩ := holds
    simp [Datum.toJson, char?]
  string {p s} holds := by
    obtain ⟨inside, exact⟩ := holds
    rfl
  string_none {p d} holds other := by
    obtain ⟨inside, exact⟩ := holds
    cases d <;> simp [Datum.toJson, string?, Datum.shape, Datum.IsExact] at exact other ⊢
  items {p ds} holds := by
    obtain ⟨inside, exact⟩ := holds
    refine ⟨ds.map fun d => (inside, d.toJson), ?_, ?_⟩
    · simp [Datum.toJson, Datum.itemsToJson_eq_map, items?]
    · rw [List.forall₂_map_left_iff, List.forall₂_same]
      exact fun d member => .document inside (Datum.areExact_iff.1 exact d member)
  items_none {p d} holds other := by
    obtain ⟨inside, exact⟩ := holds
    cases d <;> simp [Datum.toJson, items?, Datum.shape, Datum.IsExact] at exact other ⊢
  members {p ms} holds distinct := by
    obtain ⟨inside, exact⟩ := holds
    refine ⟨ms.map fun m => (m.1, inside, m.2.toJson), ?_, ?_⟩
    · simp [Datum.toJson, Datum.membersToJson_eq_map, members?]
    · rw [List.forall₂_map_left_iff, List.forall₂_same]
      exact fun m member => ⟨rfl, .document inside (Datum.haveExact_iff.1 exact m member)⟩
  fields {p fs} holds distinct := by
    obtain ⟨inside, exact⟩ := holds
    refine ⟨fun name => (fs.lookup name).map fun d => (inside, d.toJson), fun names => ?_, fun name => ?_⟩
    · simp [Datum.toJson, fields?_membersToJson distinct, Function.comp_def]
    · show Option.Rel Holds ((fs.lookup name).map _) (fs.lookup name)
      cases found : fs.lookup name with
      | none => exact .none
      | some d =>
          obtain ⟨before, after, rfl, -⟩ := List.lookup_eq_some_iff.1 found
          exact .some (.document inside (Datum.haveExact_iff.1 exact (name, d) (by simp)))
  tagged {p key tag fs} holds untagged {tags} distinct {i} position := by
    obtain ⟨inside, exact⟩ := holds
    refine ⟨(true, (Datum.record fs).toJson), ?_, .document true (d := .record fs) exact⟩
    show ((Datum.tagged key tag fs).toJson.tagged? inside key).bind _ = _
    rw [tagged?_toJson exact untagged, Option.bind_some]
    simp [tagIndex?, findIdx?_name distinct position, Datum.toJson]
  unit {p name} holds {names} distinct {i} position := by
    obtain ⟨inside, exact⟩ := holds
    exact findIdx?_name distinct position
  variant {p name d} holds {names} distinct {i} position := by
    obtain ⟨inside, exact⟩ := holds
    refine ⟨(inside, d.toJson), ?_, .document inside (d := d) exact⟩
    simp [Datum.toJson, variant?, findIdx?_name distinct position]
  required_given _ _ := rfl
  orElse_missing _ _ := rfl
  orElse_given _ _ _ := rfl
  optional_missing _ := rfl
  optional_given _ _ solid := if_neg (Bool.eq_false_iff.1 solid)

end Json

end PegFlow
