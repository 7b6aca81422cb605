/-
# PegFlow.Proofs.Format.Lawful -- what is relied on of a format

A format is lawful (`Format.Lawful`) if there are parts that hold what was written: a text gives
back the part that holds its datum, unless floats are in it or its containers are nested too deep,
and a part that holds something gives the parts of it that are asked for. A record gives its
fields by name and nothing for those that are left out; a choice gives the position of its tag and
the record that it marks.

Each law is about one way to write and to ask. How they combine, for a list of records with fields
that may be missing, say, is for the reader of a particular record to show.
-/
import PegFlow.Format
import Mathlib.Data.List.Forall2
import Mathlib.Data.Option.Basic

namespace PegFlow

set_option autoImplicit false

namespace Datum

mutual

/-- How deep containers are nested in what is written for the datum. -/
def depth : Datum → Nat
  | .array items => depthOfItems items + 1
  | .map members => depthOfMembers members + 1
  | .record fields => depthOfMembers fields + 1
  | .tagged _ _ fields => depthOfMembers fields + 1
  | .variant _ content => content.depth + 1
  | _ => 0

def depthOfItems : List Datum → Nat
  | [] => 0
  | d :: rest => max d.depth (depthOfItems rest)

def depthOfMembers : List (String × Datum) → Nat
  | [] => 0
  | (_, d) :: rest => max d.depth (depthOfMembers rest)

end

mutual

/-- The numbers of the datum have 64 bits, and it holds no floats. -/
def IsExact : Datum → Prop
  | .nat n => n < UInt64.size
  | .float _ => False
  | .array items => AreExact items
  | .map members => HaveExact members
  | .record fields => HaveExact fields
  | .tagged _ _ fields => HaveExact fields
  | .variant _ content => content.IsExact
  | _ => True

def AreExact : List Datum → Prop
  | [] => True
  | d :: rest => d.IsExact ∧ AreExact rest

def HaveExact : List (String × Datum) → Prop
  | [] => True
  | (_, d) :: rest => d.IsExact ∧ HaveExact rest

end

/-- What a datum is written as. -/
inductive Shape where
  | null
  | bool
  | number
  | string
  | list
  | members

def shape : Datum → Shape
  | .null => .null
  | .bool _ => .bool
  | .int _ | .nat _ | .float _ => .number
  | .char _ | .string _ | .unit _ => .string
  | .array _ => .list
  | .map _ | .record _ | .tagged _ _ _ | .variant _ _ => .members

theorem haveExact_append {fs fs' : List (String × Datum)} :
    HaveExact (fs ++ fs') ↔ HaveExact fs ∧ HaveExact fs' := by
  induction fs with
  | nil => simp [HaveExact]
  | cons f rest ih => simp [HaveExact, ih, and_assoc]

theorem areExact_iff {ds : List Datum} : AreExact ds ↔ ∀ d ∈ ds, d.IsExact := by
  induction ds with
  | nil => exact iff_of_true trivial (List.forall_mem_nil _)
  | cons d rest ih => rw [List.forall_mem_cons, ← ih, AreExact]

theorem haveExact_iff {ms : List (String × Datum)} : HaveExact ms ↔ ∀ m ∈ ms, m.2.IsExact := by
  induction ms with
  | nil => exact iff_of_true trivial (List.forall_mem_nil _)
  | cons m rest ih => rw [List.forall_mem_cons, ← ih, HaveExact]

theorem areExact_map {α : Type} {write : α → Datum} {xs : List α} (exact : ∀ x ∈ xs, (write x).IsExact) :
    AreExact (xs.map write) :=
  areExact_iff.2 (List.forall_mem_map.2 exact)

theorem haveExact_fieldIfSome {α : Type} {name : String} {write : α → Datum} {a : Option α} :
    HaveExact (fieldIfSome name write a) ↔ ∀ x, a = some x → (write x).IsExact := by
  cases a <;> simp [fieldIfSome, HaveExact]

theorem depth_le_depthOfItems {d : Datum} {ds : List Datum} (member : d ∈ ds) : d.depth ≤ depthOfItems ds := by
  induction ds with
  | nil => cases member
  | cons first rest ih =>
      rw [depthOfItems]
      rcases List.mem_cons.1 member with rfl | later
      · exact Nat.le_max_left _ _
      · exact Nat.le_trans (ih later) (Nat.le_max_right _ _)

theorem depth_le_depthOfMembers {name : String} {d : Datum} {fs : List (String × Datum)} (member : (name, d) ∈ fs) :
    d.depth ≤ depthOfMembers fs := by
  induction fs with
  | nil => cases member
  | cons first rest ih =>
      rw [depthOfMembers]
      rcases List.mem_cons.1 member with rfl | later
      · exact Nat.le_max_left _ _
      · exact Nat.le_trans (ih later) (Nat.le_max_right _ _)

/-- Items are nested less deep than their list. -/
theorem depth_item {α : Type} {write : α → Datum} {xs : List α} {n : Nat}
    (nested : (array (xs.map write)).depth < n + 1) {x : α} (member : x ∈ xs) : (write x).depth < n :=
  Nat.lt_of_le_of_lt (depth_le_depthOfItems (List.mem_map_of_mem member)) (Nat.lt_of_succ_lt_succ nested)

/-- Fields are nested less deep than their record. -/
theorem depth_field (name : String) (d : Datum) {fs : List (String × Datum)} {n : Nat}
    (nested : (record fs).depth < n + 1) (member : (name, d) ∈ fs) : d.depth < n :=
  Nat.lt_of_le_of_lt (depth_le_depthOfMembers member) (Nat.lt_of_succ_lt_succ nested)

end Datum

namespace Format

/-- What is relied on of a format: `Holds p d` says that the part `p` is what was written for `d`. -/
structure Lawful (F : Format) (Holds : F.Part → Datum → Prop) : Prop where
  text {d : Datum} (exact : d.IsExact) (nested : d.depth ≤ F.maxNesting) :
    ∃ text p, F.toText? d = some text ∧ F.ofText? text = some p ∧ Holds p d
  isNull_iff {p : F.Part} {d : Datum} (holds : Holds p d) : F.isNull p = true ↔ d.shape = .null
  bool {p : F.Part} {b : Bool} (holds : Holds p (.bool b)) : F.bool? p = some b
  bool_none {p : F.Part} {d : Datum} (holds : Holds p d) (other : d.shape ≠ .bool) : F.bool? p = none
  int {p : F.Part} {n : Int64} (holds : Holds p (.int n)) : F.int? p = some n
  int_none {p : F.Part} {d : Datum} (holds : Holds p d) (other : d.shape ≠ .number) : F.int? p = none
  float_none {p : F.Part} {d : Datum} (holds : Holds p d) (other : d.shape ≠ .number) : F.float? p = none
  nat {p : F.Part} {n : Nat} (holds : Holds p (.nat n)) : F.nat? p = some n
  char {p : F.Part} {c : Char} (holds : Holds p (.char c)) : F.char? p = some c
  string {p : F.Part} {s : String} (holds : Holds p (.string s)) : F.string? p = some s
  string_none {p : F.Part} {d : Datum} (holds : Holds p d) (other : d.shape ≠ .string) : F.string? p = none
  items {p : F.Part} {ds : List Datum} (holds : Holds p (.array ds)) :
    ∃ ps, F.items? p = some ps ∧ List.Forall₂ Holds ps ds
  items_none {p : F.Part} {d : Datum} (holds : Holds p d) (other : d.shape ≠ .list) : F.items? p = none
  members {p : F.Part} {ms : List (String × Datum)} (holds : Holds p (.map ms)) (distinct : (ms.map Prod.fst).Nodup) :
    ∃ ps, F.members? p = some ps ∧ List.Forall₂ (fun m m' => m.1 = m'.1 ∧ Holds m.2 m'.2) ps ms
  fields {p : F.Part} {fs : List (String × Datum)} (holds : Holds p (.record fs))
    (distinct : (fs.map Prod.fst).Nodup) :
    ∃ given : String → Option F.Part, (∀ names, F.fields? names p = some (names.map given)) ∧
      ∀ name, Option.Rel Holds (given name) (fs.lookup name)
  tagged {p : F.Part} {key tag : String} {fs : List (String × Datum)} (holds : Holds p (.tagged key tag fs))
    (untagged : key ∉ fs.map Prod.fst) {tags : List String} (distinct : tags.Nodup) {i : Nat}
    (position : tags[i]? = some tag) :
    ∃ body, F.tagged? key tags p = some (i, body) ∧ Holds body (.record fs)
  unit {p : F.Part} {name : String} (holds : Holds p (.unit name)) {names : List String} (distinct : names.Nodup)
    {i : Nat} (position : names[i]? = some name) : F.unit? names p = some i
  variant {p : F.Part} {name : String} {d : Datum} (holds : Holds p (.variant name d)) {names : List String}
    (distinct : names.Nodup) {i : Nat} (position : names[i]? = some name) :
    ∃ content, F.variant? names p = some (i, content) ∧ Holds content d
  required_given {α : Type} (read : F.Part → Option α) (p : F.Part) : F.required? read (some p) = read p
  orElse_missing {α : Type} (default : α) (read : F.Part → Option α) : F.orElse? default read none = some default
  orElse_given {α : Type} (default : α) (read : F.Part → Option α) (p : F.Part) :
    F.orElse? default read (some p) = read p
  optional_missing {α : Type} (read : F.Part → Option α) : F.optional? read none = some none
  optional_given {α : Type} (read : F.Part → Option α) {p : F.Part} (solid : F.isNull p = false) :
    F.optional? read (some p) = (read p).map some

namespace Lawful

variable {F : Format} {Holds : F.Part → Datum → Prop} {α : Type} {read : F.Part → Option α} {write : α → Datum}
  {p : F.Part} {field : Option F.Part} {d : Datum}

theorem solid (lawful : F.Lawful Holds) (holds : Holds p d) (other : d.shape ≠ .null) : F.isNull p = false :=
  Bool.eq_false_iff.2 fun null => other ((lawful.isNull_iff holds).1 null)

/-- A list reads back when its items do. -/
theorem list (lawful : F.Lawful Holds) {xs : List α} (holds : Holds p (.array (xs.map write)))
    (back : ∀ x ∈ xs, ∀ q, Holds q (write x) → read q = some x) : F.list? read p = some xs := by
  obtain ⟨ps, items, each⟩ := lawful.items holds
  rw [list?, items, Option.bind_eq_bind, Option.bind_some]
  clear items holds
  induction xs generalizing ps with
  | nil =>
      cases each
      rfl
  | cons x rest ih =>
      obtain ⟨first, later⟩ := List.forall_mem_cons.1 back
      obtain _ | ⟨here, each⟩ := each
      simp [first _ here, ih later _ each]

/-- What was written is refused where something of another shape is asked for. -/
theorem refused (lawful : F.Lawful Holds) (holds : Holds p d) :
    (d.shape ≠ .null → F.isNull p = false) ∧ (d.shape ≠ .bool → F.bool? p = none) ∧
      (d.shape ≠ .number → F.int? p = none ∧ F.float? p = none) ∧ (d.shape ≠ .string → F.string? p = none) ∧
      (d.shape ≠ .list → F.items? p = none) :=
  ⟨lawful.solid holds, lawful.bool_none holds, fun other => ⟨lawful.int_none holds other, lawful.float_none holds other⟩,
    lawful.string_none holds, lawful.items_none holds⟩

/-- A map reads back when its values do. -/
theorem entries (lawful : F.Lawful Holds) {ms : List (String × α)}
    (holds : Holds p (.map (ms.map fun m => (m.1, write m.2)))) (distinct : (ms.map Prod.fst).Nodup)
    (back : ∀ m ∈ ms, ∀ q, Holds q (write m.2) → read q = some m.2) :
    (F.members? p).bind (List.mapM fun m => (read m.2).map fun v => (m.1, v)) = some ms := by
  have keys : (ms.map fun m => (m.1, write m.2)).map Prod.fst = ms.map Prod.fst := by
    rw [List.map_map]
    rfl
  obtain ⟨ps, members, each⟩ := lawful.members holds (by rwa [keys])
  rw [members, Option.bind_some]
  clear members holds distinct keys
  induction ms generalizing ps with
  | nil =>
      cases each
      rfl
  | cons m rest ih =>
      obtain ⟨first, later⟩ := List.forall_mem_cons.1 back
      obtain _ | ⟨⟨key, here⟩, each⟩ := each
      simp [key, first _ here, ih later _ each]

theorem required (lawful : F.Lawful Holds) {a : α} (given : Option.Rel Holds field (some d))
    (back : ∀ q, Holds q d → read q = some a) : F.required? read field = some a := by
  obtain ⟨holds⟩ := given
  rw [lawful.required_given, back _ holds]

theorem orElse (lawful : F.Lawful Holds) (default : α) {a : α} (given : Option.Rel Holds field (some d))
    (back : ∀ q, Holds q d → read q = some a) : F.orElse? default read field = some a := by
  obtain ⟨holds⟩ := given
  rw [lawful.orElse_given, back _ holds]

/-- A field that is left out when there is nothing to write reads back as it was. -/
theorem optional (lawful : F.Lawful Holds) {a : Option α} (given : Option.Rel Holds field (a.map write))
    (back : ∀ x, a = some x → ∀ q, Holds q (write x) → read q = some x) (other : ∀ x, (write x).shape ≠ .null) :
    F.optional? read field = some a := by
  cases a with
  | none =>
      cases given
      exact lawful.optional_missing read
  | some x =>
      obtain ⟨holds⟩ := given
      rw [lawful.optional_given read (lawful.solid holds (other x)), back x rfl _ holds, Option.map_some]

end Lawful

end Format

end PegFlow
