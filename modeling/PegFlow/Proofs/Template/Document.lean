/-
# PegFlow.Proofs.Template.Document -- templates read back from a format

A template whose numbers have 64 bits, and whose literal values are without floats and sorted by
key (`Template.Storable`), is written exactly and reads back from a lawful format
(`Template.read?_of_holds`), by induction on the fuel. Each node is nested in a container, so more
fuel than the template is deep is enough.
-/
import PegFlow.Proofs.Value.Format
import PegFlow.Template.Format

namespace PegFlow

set_option autoImplicit false

open Datum

section

variable {F : Format} {Holds : F.Part → Datum → Prop}

/-! ## Parts -/

namespace SourcePosition

/-- The numbers of the position have 64 bits. -/
def Sized (p : SourcePosition) : Prop :=
  p.offset < UInt64.size ∧ p.line < UInt64.size ∧ p.column < UInt64.size

theorem Sized.toDatum_exact {s : SourcePosition} (sized : s.Sized) : s.toDatum.IsExact :=
  ⟨sized.1, sized.2.1, sized.2.2, trivial⟩

theorem read?_of_holds (lawful : F.Lawful Holds) {s : SourcePosition} {p : F.Part} (holds : Holds p s.toDatum) :
    read? F p = some s := by
  obtain ⟨given, fields, each⟩ := lawful.fields holds (by simp)
  have offset := lawful.required (each "offset") fun _ => lawful.nat
  have line := lawful.required (each "line") fun _ => lawful.nat
  have column := lawful.required (each "column") fun _ => lawful.nat
  rw [read?, fields]
  simp [offset, line, column]

theorem fieldIfSome_exact {s : Option SourcePosition} (sized : ∀ q, s = some q → q.Sized) :
    HaveExact (fieldIfSome "pos" toDatum s) :=
  haveExact_fieldIfSome.2 fun q given => (sized q given).toDatum_exact

/-- A position that may be missing. -/
theorem optional?_of_holds (lawful : F.Lawful Holds) {s : Option SourcePosition} {field : Option F.Part}
    (given : Option.Rel Holds field (s.map toDatum)) : F.optional? (read? F) field = some s :=
  lawful.optional given (fun _ _ _ => read?_of_holds lawful) fun _ => by simp [toDatum, shape]

end SourcePosition

namespace Access

/-- An index has 64 bits. -/
def Sized : Access → Prop
  | .property _ => True
  | .index n => n < UInt64.size

theorem Sized.toDatum_exact {a : Access} (sized : a.Sized) : a.toDatum.IsExact := by
  cases a with
  | property key => trivial
  | index n => exact sized

theorem read?_of_holds (lawful : F.Lawful Holds) {a : Access} {p : F.Part} (holds : Holds p a.toDatum) :
    read? F p = some a := by
  have distinct : ["property", "index"].Nodup := by decide
  cases a with
  | property key =>
      obtain ⟨content, variant, here⟩ := lawful.variant holds distinct (i := 0) rfl
      simp [read?, variant, lawful.string here]
  | index n =>
      obtain ⟨content, variant, here⟩ := lawful.variant holds distinct (i := 1) rfl
      simp [read?, variant, lawful.nat here]

end Access

theorem Meta.read?_of_holds (lawful : F.Lawful Holds) {what : Meta} {p : F.Part} (holds : Holds p what.toDatum) :
    read? F p = some what := by
  have distinct : names.Nodup := by decide
  cases what with
  | position =>
      have unit := lawful.unit holds distinct (i := 0) rfl
      simp [read?, unit]
  | length =>
      have unit := lawful.unit holds distinct (i := 1) rfl
      simp [read?, unit]

/-! ## Templates -/

namespace Template

mutual

/-- The numbers of the template have 64 bits, and its literal values are without floats and sorted by
key. -/
def Storable : Template → Prop
  | ⟨kind, access, pos⟩ =>
    StorableKind kind ∧ (∀ step ∈ access, step.Sized) ∧ ∀ p, pos = some p → p.Sized

def StorableKind : TemplateKind → Prop
  | .literal value => value.Storable
  | .backRef index _ => index < UInt64.size
  | .constant _ => True
  | .location _ => True
  | .spread inner => inner.Storable
  | .object members => StorableMembers members
  | .array items => StorableItems items
  | .call _ args => StorableItems args
  | .pivot inner => inner.Storable

def StorableItems : List Template → Prop
  | [] => True
  | t :: rest => t.Storable ∧ StorableItems rest

def StorableMembers : List Member → Prop
  | [] => True
  | .pair _ value :: rest => value.Storable ∧ StorableMembers rest
  | .merge value :: rest => value.Storable ∧ StorableMembers rest

end

mutual

theorem toDatum_exact : ∀ {t : Template}, t.Storable → t.toDatum.IsExact
  | ⟨kind, access, pos⟩, ⟨node, steps, place⟩ => by
      have written : HaveExact (if access.isEmpty then [] else [("access", .array (access.map Access.toDatum))]) := by
        split
        · trivial
        · exact ⟨areExact_map fun step member => (steps step member).toDatum_exact, trivial⟩
      exact haveExact_append.2 ⟨haveExact_append.2 ⟨⟨kindToDatum_exact node, trivial⟩, written⟩,
        SourcePosition.fieldIfSome_exact place⟩

theorem kindToDatum_exact : ∀ {k : TemplateKind}, StorableKind k → (kindToDatum k).IsExact
  | .literal _, storable => ⟨Value.toDatum_exact storable.free, trivial⟩
  | .backRef _ _, storable => ⟨storable, trivial, trivial⟩
  | .constant _, _ => ⟨trivial, trivial⟩
  | .location _, _ => ⟨trivial, trivial⟩
  | .spread inner, storable => ⟨toDatum_exact (t := inner) storable, trivial⟩
  | .object _, storable => ⟨membersToDatum_exact storable, trivial⟩
  | .array _, storable => ⟨itemsToDatum_exact storable, trivial⟩
  | .call _ _, storable => ⟨trivial, itemsToDatum_exact storable, trivial⟩
  | .pivot inner, storable => ⟨toDatum_exact (t := inner) storable, trivial⟩

theorem itemsToDatum_exact : ∀ {ts : List Template}, StorableItems ts → AreExact (itemsToDatum ts)
  | [], _ => trivial
  | _ :: _, storable => ⟨toDatum_exact storable.1, itemsToDatum_exact storable.2⟩

theorem membersToDatum_exact : ∀ {ms : List Member}, StorableMembers ms → AreExact (membersToDatum ms)
  | [], _ => trivial
  | .pair _ _ :: _, storable => ⟨⟨trivial, toDatum_exact storable.1, trivial⟩, membersToDatum_exact storable.2⟩
  | .merge _ :: _, storable => ⟨⟨toDatum_exact storable.1, trivial⟩, membersToDatum_exact storable.2⟩

end

theorem shape_toDatum_ne (t : Template) : t.toDatum.shape ≠ .null := by
  obtain ⟨kind, access, pos⟩ := t
  simp [toDatum, shape]

theorem itemsToDatum_eq_map (ts : List Template) : itemsToDatum ts = ts.map toDatum := by
  induction ts with
  | nil => rfl
  | cons t rest ih => rw [itemsToDatum, ih, List.map_cons]

theorem storableItems_iff {ts : List Template} : StorableItems ts ↔ ∀ t ∈ ts, t.Storable := by
  induction ts with
  | nil => exact iff_of_true trivial (List.forall_mem_nil _)
  | cons t rest ih => rw [List.forall_mem_cons, ← ih, StorableItems]

/-- A part of an object as it is written. -/
def memberToDatum : Member → Datum
  | .pair key value => .tagged "type" "pair" [("key", .string key), ("value", value.toDatum)]
  | .merge value => .tagged "type" "spread" [("value", value.toDatum)]

theorem membersToDatum_eq_map (ms : List Member) : membersToDatum ms = ms.map memberToDatum := by
  induction ms with
  | nil => rfl
  | cons m rest ih => cases m <;> rw [membersToDatum, ih, List.map_cons, memberToDatum]

/-- The template of a part of an object. -/
def memberValue : Member → Template
  | .pair _ value => value
  | .merge value => value

theorem storableMembers_iff {ms : List Member} : StorableMembers ms ↔ ∀ m ∈ ms, (memberValue m).Storable := by
  induction ms with
  | nil => exact iff_of_true trivial (List.forall_mem_nil _)
  | cons m rest ih => cases m <;> rw [List.forall_mem_cons, ← ih, StorableMembers, memberValue]

/-- A list of templates is read when each of them is. -/
theorem list?_of_holds (lawful : F.Lawful Holds) {read : F.Part → Option Template} {ts : List Template} {n : Nat}
    {p : F.Part} (storable : StorableItems ts) (nested : (Datum.array (itemsToDatum ts)).depth < n + 1)
    (holds : Holds p (.array (itemsToDatum ts)))
    (back : ∀ {t : Template} {q}, t.Storable → t.toDatum.depth < n → Holds q t.toDatum → read q = some t) :
    F.list? read p = some ts := by
  rw [itemsToDatum_eq_map] at nested holds
  exact lawful.list holds fun t member q =>
    back (storableItems_iff.1 storable t member) (depth_item nested member)

/-- The parts of an object are read when each of them is. -/
theorem members_of_holds (lawful : F.Lawful Holds) {read : F.Part → Option Member} {ms : List Member} {n : Nat}
    {p : F.Part} (storable : StorableMembers ms) (nested : (Datum.array (membersToDatum ms)).depth < n + 1)
    (holds : Holds p (.array (membersToDatum ms)))
    (back : ∀ {m : Member} {q}, (memberValue m).Storable → (memberToDatum m).depth < n →
      Holds q (memberToDatum m) → read q = some m) :
    F.list? read p = some ms := by
  rw [membersToDatum_eq_map] at nested holds
  exact lawful.list holds fun m member q =>
    back (storableMembers_iff.1 storable m member) (depth_item nested member)

theorem kindTags_nodup : kindTags.Nodup := by decide

theorem memberTags_nodup : memberTags.Nodup := by decide

/-- The chain of a template is left out when it is empty. -/
theorem access_of_holds (lawful : F.Lawful Holds) {kind : Datum} {access : List Access}
    {pos : Option SourcePosition} {field : Option F.Part}
    (given : Option.Rel Holds field (List.lookup "access" ([("kind", kind)] ++
      (if access.isEmpty then [] else [("access", .array (access.map Access.toDatum))]) ++
      fieldIfSome "pos" SourcePosition.toDatum pos))) :
    F.orElse? [] (F.list? (Access.read? F)) field = some access := by
  cases access with
  | nil =>
      have absent : Option.Rel Holds field none := by
        cases pos <;> simpa [fieldIfSome, List.lookup_cons] using given
      cases absent
      exact lawful.orElse_missing [] _
  | cons step rest =>
      refine lawful.orElse [] (d := .array ((step :: rest).map Access.toDatum)) given fun q holds => ?_
      exact lawful.list holds fun _ _ _ => Access.read?_of_holds lawful

theorem pos_of_holds {kind : Datum} {access : List Access} {pos : Option SourcePosition} {field : Option F.Part}
    (given : Option.Rel Holds field (List.lookup "pos" ([("kind", kind)] ++
      (if access.isEmpty then [] else [("access", .array (access.map Access.toDatum))]) ++
      fieldIfSome "pos" SourcePosition.toDatum pos))) :
    Option.Rel Holds field (pos.map SourcePosition.toDatum) := by
  cases access <;> cases pos <;> exact given

mutual

/-- A template is read from the part that holds it, with more fuel than it is deep. -/
theorem read?_of_holds (lawful : F.Lawful Holds) : ∀ (fuel : Nat) {t : Template} {p : F.Part}, t.Storable →
    t.toDatum.depth < fuel → Holds p t.toDatum → read? F fuel p = some t
  | 0, _, _, _, nested, _ => absurd nested (Nat.not_lt_zero _)
  | fuel + 1, ⟨kind, access, pos⟩, p, ⟨node, steps, place⟩, nested, holds => by
      have distinct : ((([("kind", kindToDatum kind)] ++
          (if access.isEmpty then [] else [("access", .array (access.map Access.toDatum))]) ++
          fieldIfSome "pos" SourcePosition.toDatum pos) : List (String × Datum)).map Prod.fst).Nodup := by
        cases access <;> cases pos <;> simp [fieldIfSome]
      obtain ⟨given, fields, each⟩ := lawful.fields holds distinct
      have inner := depth_field "kind" (kindToDatum kind) nested (by simp)
      have here := lawful.required (each "kind") fun q => readKind?_of_holds lawful fuel node inner
      have chain := access_of_holds lawful (each "access")
      have located := SourcePosition.optional?_of_holds lawful (pos_of_holds (each "pos"))
      rw [read?, fields]
      simp [here, chain, located]

/-- A node is read from the part that holds it. -/
theorem readKind?_of_holds (lawful : F.Lawful Holds) : ∀ (fuel : Nat) {k : TemplateKind} {p : F.Part},
    StorableKind k → (kindToDatum k).depth < fuel → Holds p (kindToDatum k) → readKind? F fuel p = some k
  | 0, _, _, _, nested, _ => absurd nested (Nat.not_lt_zero _)
  | fuel + 1, .literal value, _, storable, nested, holds => by
      obtain ⟨body, tagged, content⟩ := lawful.tagged holds (by simp) kindTags_nodup (i := 0) rfl
      obtain ⟨given, fields, each⟩ := lawful.fields content (by simp)
      have inner := depth_field "value" value.toDatum nested (by simp)
      have here := lawful.required (each "value") fun q => Value.read?_of_holds lawful storable inner
      simp [readKind?, tagged, fields, here]
  | _ + 1, .backRef index collapse, _, _, _, holds => by
      obtain ⟨body, tagged, content⟩ := lawful.tagged holds (by simp) kindTags_nodup (i := 1) rfl
      obtain ⟨given, fields, each⟩ := lawful.fields content (by simp)
      have position := lawful.required (each "index") fun _ => lawful.nat
      have collapses := lawful.orElse false (each "collapse") fun _ => lawful.bool
      simp [readKind?, tagged, fields, position, collapses]
  | _ + 1, .constant name, _, _, _, holds => by
      obtain ⟨body, tagged, content⟩ := lawful.tagged holds (by simp) kindTags_nodup (i := 2) rfl
      obtain ⟨given, fields, each⟩ := lawful.fields content (by simp)
      have named := lawful.required (each "name") fun _ => lawful.string
      simp [readKind?, tagged, fields, named]
  | _ + 1, .location what, _, _, _, holds => by
      obtain ⟨body, tagged, content⟩ := lawful.tagged holds (by simp) kindTags_nodup (i := 3) rfl
      obtain ⟨given, fields, each⟩ := lawful.fields content (by simp)
      have asked := lawful.required (each "meta") fun _ => Meta.read?_of_holds lawful
      simp [readKind?, tagged, fields, asked]
  | fuel + 1, .spread inner, _, storable, nested, holds => by
      obtain ⟨body, tagged, content⟩ := lawful.tagged holds (by simp) kindTags_nodup (i := 4) rfl
      obtain ⟨given, fields, each⟩ := lawful.fields content (by simp)
      have deep := depth_field "inner" inner.toDatum nested (by simp)
      have here := lawful.required (each "inner") fun q => read?_of_holds lawful fuel storable deep
      simp [readKind?, tagged, fields, here]
  | fuel + 1, .object members, _, storable, nested, holds => by
      obtain ⟨body, tagged, content⟩ := lawful.tagged holds (by simp) kindTags_nodup (i := 5) rfl
      obtain ⟨given, fields, each⟩ := lawful.fields content (by simp)
      have deep := depth_field "members" (.array (membersToDatum members)) nested (by simp)
      have here := lawful.required (each "members") fun q list =>
        members_of_holds lawful storable (Nat.lt_succ_of_lt deep) list (readMember?_of_holds lawful fuel)
      simp [readKind?, tagged, fields, here]
  | fuel + 1, .array items, _, storable, nested, holds => by
      obtain ⟨body, tagged, content⟩ := lawful.tagged holds (by simp) kindTags_nodup (i := 6) rfl
      obtain ⟨given, fields, each⟩ := lawful.fields content (by simp)
      have deep := depth_field "items" (.array (itemsToDatum items)) nested (by simp)
      have here := lawful.required (each "items") fun q list =>
        list?_of_holds lawful storable (Nat.lt_succ_of_lt deep) list (read?_of_holds lawful fuel)
      simp [readKind?, tagged, fields, here]
  | fuel + 1, .call name args, _, storable, nested, holds => by
      obtain ⟨body, tagged, content⟩ := lawful.tagged holds (by simp) kindTags_nodup (i := 7) rfl
      obtain ⟨given, fields, each⟩ := lawful.fields content (by simp)
      have deep := depth_field "args" (.array (itemsToDatum args)) nested (by simp)
      have named := lawful.required (each "name") fun _ => lawful.string
      have here := lawful.orElse [] (each "args") fun q list =>
        list?_of_holds lawful storable (Nat.lt_succ_of_lt deep) list (read?_of_holds lawful fuel)
      simp [readKind?, tagged, fields, named, here]
  | fuel + 1, .pivot inner, _, storable, nested, holds => by
      obtain ⟨body, tagged, content⟩ := lawful.tagged holds (by simp) kindTags_nodup (i := 8) rfl
      obtain ⟨given, fields, each⟩ := lawful.fields content (by simp)
      have deep := depth_field "inner" inner.toDatum nested (by simp)
      have here := lawful.required (each "inner") fun q => read?_of_holds lawful fuel storable deep
      simp [readKind?, tagged, fields, here]

/-- A part of an object is read from the part that holds it. -/
theorem readMember?_of_holds (lawful : F.Lawful Holds) : ∀ (fuel : Nat) {m : Member} {p : F.Part},
    (memberValue m).Storable → (memberToDatum m).depth < fuel → Holds p (memberToDatum m) →
    readMember? F fuel p = some m
  | 0, _, _, _, nested, _ => absurd nested (Nat.not_lt_zero _)
  | fuel + 1, .pair key value, _, storable, nested, holds => by
      obtain ⟨body, tagged, content⟩ := lawful.tagged holds (by simp) memberTags_nodup (i := 0) rfl
      obtain ⟨given, fields, each⟩ := lawful.fields content (by simp)
      have deep := depth_field "value" value.toDatum nested (by simp)
      have named := lawful.required (each "key") fun _ => lawful.string
      have here := lawful.required (each "value") fun q => read?_of_holds lawful fuel storable deep
      simp [readMember?, tagged, fields, named, here]
  | fuel + 1, .merge value, _, storable, nested, holds => by
      obtain ⟨body, tagged, content⟩ := lawful.tagged holds (by simp) memberTags_nodup (i := 1) rfl
      obtain ⟨given, fields, each⟩ := lawful.fields content (by simp)
      have deep := depth_field "value" value.toDatum nested (by simp)
      have here := lawful.required (each "value") fun q => read?_of_holds lawful fuel storable deep
      simp [readMember?, tagged, fields, here]

end

mutual

theorem beq_self : ∀ {t : Template}, t.Storable → t.beq t = true
  | ⟨_, access, pos⟩, ⟨node, _⟩ => by
      rw [beq, beqKind_self node, beq_self_eq_true, beq_self_eq_true]
      rfl

theorem beqKind_self : ∀ {k : TemplateKind}, StorableKind k → beqKind k k = true
  | .literal _, storable => Value.beq_self storable.free
  | .backRef index collapse, _ => by rw [beqKind, beq_self_eq_true, beq_self_eq_true]; rfl
  | .constant name, _ => beq_self_eq_true name
  | .location what, _ => beq_self_eq_true what
  | .spread inner, storable => beq_self (t := inner) storable
  | .object members, storable => beqMembers_self storable
  | .array items, storable => beqItems_self storable
  | .call name args, storable => by rw [beqKind, beq_self_eq_true, beqItems_self storable]; rfl
  | .pivot inner, storable => beq_self (t := inner) storable

theorem beqItems_self : ∀ {ts : List Template}, StorableItems ts → beqItems ts ts = true
  | [], _ => rfl
  | _ :: _, storable => by rw [beqItems, beq_self storable.1, beqItems_self storable.2]; rfl

theorem beqMembers_self : ∀ {ms : List Member}, StorableMembers ms → beqMembers ms ms = true
  | [], _ => rfl
  | .pair key _ :: _, storable => by
      rw [beqMembers, beq_self_eq_true, beq_self storable.1, beqMembers_self storable.2]
      rfl
  | .merge _ :: _, storable => by rw [beqMembers, beq_self storable.1, beqMembers_self storable.2]; rfl

end

end Template

end

end PegFlow
