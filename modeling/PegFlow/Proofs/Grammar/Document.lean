/-
# PegFlow.Proofs.Grammar.Document -- grammars read back from their text

A grammar whose numbers have 64 bits, and whose literal values are without floats and sorted by
key (`Grammar.Storable`), can be written in any lawful format, reads back from its text and equals
what is read, if it is not nested deeper than the format takes (`Grammar.text_reads_back`). Every
annotation and every position is kept; only the places of rulesets by name are not written, and
they are worked out from the rest.

The proof goes over the parts of a grammar from the inside out: each is written exactly, is read
from a part that holds it, and equals itself.
-/
import PegFlow.Grammar.Build
import PegFlow.Grammar.Format
import PegFlow.Proofs.Json.Format
import PegFlow.Proofs.Template.Document

namespace PegFlow

set_option autoImplicit false

open Datum

section

variable {F : Format} {Holds : F.Part → Datum → Prop}

/-! ## Parts that hold no patterns -/

theorem CharRange.read?_of_holds (lawful : F.Lawful Holds) {r : CharRange} {p : F.Part} (holds : Holds p r.toDatum) :
    read? F p = some r := by
  obtain ⟨given, fields, each⟩ := lawful.fields holds (by simp)
  have first := lawful.required (each "from") fun _ => lawful.char
  have last := lawful.required (each "to") fun _ => lawful.char
  rw [read?, fields]
  simp [first, last]

/-- A number that may be missing has 64 bits. -/
def Annotated (n : Option Nat) : Prop := ∀ k, n = some k → k < UInt64.size

namespace Annotated

variable {n : Option Nat}

theorem fieldIfSome_exact (sized : Annotated n) (name : String) : HaveExact (fieldIfSome name .nat n) :=
  haveExact_fieldIfSome.2 sized

theorem optional?_of_holds (lawful : F.Lawful Holds) {field : Option F.Part}
    (given : Option.Rel Holds field (n.map .nat)) : F.optional? F.nat? field = some n :=
  lawful.optional given (fun _ _ _ => lawful.nat) fun _ => by simp [shape]

end Annotated

/-! ## Matchers, tokens and patterns -/

mutual

/-- The numbers of the matcher have 64 bits. -/
def Matcher.Storable : Matcher → Prop
  | .capture patterns slot => Pattern.StorableList patterns ∧ slot < UInt64.size
  | .group patterns => Pattern.StorableList patterns
  | .ref _ target => Annotated target
  | .literal _ terminal => Annotated terminal
  | .charClass _ terminal => Annotated terminal
  | .any terminal => Annotated terminal

/-- The numbers of the tokens have 64 bits. -/
def Token.StorableList : List Token → Prop
  | [] => True
  | ⟨matcher, _, _, _, _, id, pos⟩ :: rest =>
    (matcher.Storable ∧ id < UInt64.size ∧ ∀ p, pos = some p → p.Sized) ∧ Token.StorableList rest

/-- The numbers of the patterns have 64 bits. -/
def Pattern.StorableList : List Pattern → Prop
  | [] => True
  | ⟨tokens, _, id⟩ :: rest => (Token.StorableList tokens ∧ id < UInt64.size) ∧ Pattern.StorableList rest

end

mutual

theorem Matcher.toDatum_exact : ∀ {m : Matcher}, m.Storable → m.toDatum.IsExact
  | .capture _ _, storable => ⟨Pattern.listToDatum_exact storable.1, storable.2, trivial⟩
  | .group _, storable => ⟨Pattern.listToDatum_exact storable, trivial⟩
  | .ref _ _, storable => ⟨trivial, Annotated.fieldIfSome_exact storable _⟩
  | .literal _ _, storable => ⟨trivial, Annotated.fieldIfSome_exact storable _⟩
  | .charClass _ _, storable =>
      haveExact_append.2 ⟨⟨areExact_map fun _ _ => ⟨trivial, trivial, trivial⟩, trivial, trivial⟩,
        Annotated.fieldIfSome_exact storable _⟩
  | .any _, storable => Annotated.fieldIfSome_exact storable _

theorem Token.listToDatum_exact : ∀ {ts : List Token}, Token.StorableList ts → AreExact (Token.listToDatum ts)
  | [], _ => trivial
  | ⟨_, _, _, _, _, _, _⟩ :: _, storable =>
      ⟨haveExact_append.2 ⟨⟨Matcher.toDatum_exact storable.1.1, trivial, trivial, trivial, trivial, storable.1.2.1,
        trivial⟩, SourcePosition.fieldIfSome_exact storable.1.2.2⟩, Token.listToDatum_exact storable.2⟩

theorem Pattern.listToDatum_exact : ∀ {ps : List Pattern}, Pattern.StorableList ps →
    AreExact (Pattern.listToDatum ps)
  | [], _ => trivial
  | ⟨_, _, _⟩ :: _, storable =>
      ⟨⟨Token.listToDatum_exact storable.1.1, trivial, storable.1.2, trivial⟩, Pattern.listToDatum_exact storable.2⟩

end

/-- One token as it is written. -/
def Token.toDatum (t : Token) : Datum :=
  .record
    ([("descriptor", t.matcher.toDatum), ("required", .bool t.required), ("repeat", .bool t.repeated),
      ("and", .bool t.ahead), ("not", .bool t.notAhead), ("id", .nat t.id)] ++
      fieldIfSome "pos" SourcePosition.toDatum t.pos)

theorem Token.listToDatum_eq_map (ts : List Token) : listToDatum ts = ts.map Token.toDatum := by
  induction ts with
  | nil => rfl
  | cons t rest ih =>
      obtain ⟨matcher, required, repeated, ahead, notAhead, id, pos⟩ := t
      rw [listToDatum, ih]
      rfl

/-- One pattern as it is written. -/
def Pattern.toDatum (p : Pattern) : Datum :=
  .record [("tokens", .array (Token.listToDatum p.tokens)), ("can_fail", .bool p.canFail), ("id", .nat p.id)]

theorem Pattern.listToDatum_eq_map (ps : List Pattern) : listToDatum ps = ps.map Pattern.toDatum := by
  induction ps with
  | nil => rfl
  | cons p rest ih =>
      obtain ⟨tokens, canFail, id⟩ := p
      rw [listToDatum, ih]
      rfl

/-- The numbers of the token have 64 bits. -/
def Token.Storable (t : Token) : Prop :=
  t.matcher.Storable ∧ t.id < UInt64.size ∧ ∀ p, t.pos = some p → p.Sized

theorem Token.storableList_iff {ts : List Token} : StorableList ts ↔ ∀ t ∈ ts, t.Storable := by
  induction ts with
  | nil => exact iff_of_true trivial (List.forall_mem_nil _)
  | cons t rest ih =>
      obtain ⟨matcher, required, repeated, ahead, notAhead, id, pos⟩ := t
      rw [List.forall_mem_cons, ← ih]
      exact Iff.rfl

/-- The numbers of the pattern have 64 bits. -/
def Pattern.Storable (p : Pattern) : Prop := Token.StorableList p.tokens ∧ p.id < UInt64.size

theorem Pattern.storableList_iff {ps : List Pattern} : StorableList ps ↔ ∀ p ∈ ps, p.Storable := by
  induction ps with
  | nil => exact iff_of_true trivial (List.forall_mem_nil _)
  | cons p rest ih =>
      obtain ⟨tokens, canFail, id⟩ := p
      rw [List.forall_mem_cons, ← ih]
      exact Iff.rfl

/-- A list of patterns is read when each of them is. -/
theorem Pattern.list?_of_holds (lawful : F.Lawful Holds) {read : F.Part → Option Pattern} {ps : List Pattern}
    {n : Nat} {p : F.Part} (storable : StorableList ps) (nested : (Datum.array (listToDatum ps)).depth < n + 1)
    (holds : Holds p (.array (listToDatum ps)))
    (back : ∀ {one : Pattern} {q}, one.Storable → one.toDatum.depth < n → Holds q one.toDatum → read q = some one) :
    F.list? read p = some ps := by
  rw [listToDatum_eq_map] at nested holds
  exact lawful.list holds fun one member q => back (storableList_iff.1 storable one member) (depth_item nested member)

/-- A list of tokens is read when each of them is. -/
theorem Token.list?_of_holds (lawful : F.Lawful Holds) {read : F.Part → Option Token} {ts : List Token}
    {n : Nat} {p : F.Part} (storable : StorableList ts) (nested : (Datum.array (listToDatum ts)).depth < n + 1)
    (holds : Holds p (.array (listToDatum ts)))
    (back : ∀ {t : Token} {q}, t.Storable → t.toDatum.depth < n → Holds q t.toDatum → read q = some t) :
    F.list? read p = some ts := by
  rw [listToDatum_eq_map] at nested holds
  exact lawful.list holds fun t member q => back (storableList_iff.1 storable t member) (depth_item nested member)

theorem Matcher.tags_nodup : Matcher.tags.Nodup := by decide

mutual

/-- A matcher is read from the part that holds it, with more fuel than it is deep. -/
theorem Matcher.read?_of_holds (lawful : F.Lawful Holds) : ∀ (fuel : Nat) {m : Matcher} {p : F.Part}, m.Storable →
    m.toDatum.depth < fuel → Holds p m.toDatum → Matcher.read? F fuel p = some m
  | 0, _, _, _, nested, _ => absurd nested (Nat.not_lt_zero _)
  | fuel + 1, .capture patterns slot, _, storable, nested, holds => by
      obtain ⟨body, tagged, content⟩ := lawful.tagged holds (by simp) Matcher.tags_nodup (i := 0) rfl
      obtain ⟨given, fields, each⟩ := lawful.fields content (by simp)
      have deep := depth_field "patterns" (.array (Pattern.listToDatum patterns)) nested (by simp)
      have here := lawful.required (each "patterns") fun q list =>
        Pattern.list?_of_holds lawful storable.1 (Nat.lt_succ_of_lt deep) list (Pattern.read?_of_holds lawful fuel)
      have numbered := lawful.orElse 0 (each "slot") fun _ => lawful.nat
      simp [Matcher.read?, tagged, fields, here, numbered]
  | fuel + 1, .group patterns, _, storable, nested, holds => by
      obtain ⟨body, tagged, content⟩ := lawful.tagged holds (by simp) Matcher.tags_nodup (i := 1) rfl
      obtain ⟨given, fields, each⟩ := lawful.fields content (by simp)
      have deep := depth_field "patterns" (.array (Pattern.listToDatum patterns)) nested (by simp)
      have here := lawful.required (each "patterns") fun q list =>
        Pattern.list?_of_holds lawful storable (Nat.lt_succ_of_lt deep) list (Pattern.read?_of_holds lawful fuel)
      simp [Matcher.read?, tagged, fields, here]
  | _ + 1, .ref name target, _, _, _, holds => by
      obtain ⟨body, tagged, content⟩ := lawful.tagged holds (by cases target <;> simp [fieldIfSome])
        Matcher.tags_nodup (i := 2) rfl
      obtain ⟨given, fields, each⟩ := lawful.fields content (by cases target <;> simp [fieldIfSome])
      have named := lawful.required (each "name") fun _ => lawful.string
      have linked := Annotated.optional?_of_holds (n := target) lawful (by cases target <;> exact each "target")
      simp [Matcher.read?, tagged, fields, named, linked]
  | _ + 1, .literal text terminal, _, _, _, holds => by
      obtain ⟨body, tagged, content⟩ := lawful.tagged holds (by cases terminal <;> simp [fieldIfSome])
        Matcher.tags_nodup (i := 3) rfl
      obtain ⟨given, fields, each⟩ := lawful.fields content (by cases terminal <;> simp [fieldIfSome])
      have value := lawful.required (each "value") fun _ => lawful.string
      have interned := Annotated.optional?_of_holds (n := terminal) lawful
        (by cases terminal <;> exact each "terminal")
      simp [Matcher.read?, tagged, fields, value, interned]
  | _ + 1, .charClass ⟨ranges, negated⟩ terminal, _, _, _, holds => by
      obtain ⟨body, tagged, content⟩ := lawful.tagged holds (by cases terminal <;> simp [fieldIfSome])
        Matcher.tags_nodup (i := 4) rfl
      obtain ⟨given, fields, each⟩ := lawful.fields content (by cases terminal <;> simp [fieldIfSome])
      have listed := lawful.required (each "ranges") fun q list =>
        lawful.list list fun _ _ _ => CharRange.read?_of_holds lawful
      have marked := lawful.orElse false (each "negated") fun _ => lawful.bool
      have interned := Annotated.optional?_of_holds (n := terminal) lawful
        (by cases terminal <;> exact each "terminal")
      simp [Matcher.read?, tagged, fields, listed, marked, interned]
  | _ + 1, .any terminal, _, _, _, holds => by
      obtain ⟨body, tagged, content⟩ := lawful.tagged holds (by cases terminal <;> simp [fieldIfSome])
        Matcher.tags_nodup (i := 5) rfl
      obtain ⟨given, fields, each⟩ := lawful.fields content (by cases terminal <;> simp [fieldIfSome])
      have interned := Annotated.optional?_of_holds (n := terminal) lawful
        (by cases terminal <;> exact each "terminal")
      simp [Matcher.read?, tagged, fields, interned]

/-- A token is read from the part that holds it. -/
theorem Token.read?_of_holds (lawful : F.Lawful Holds) : ∀ (fuel : Nat) {t : Token} {p : F.Part}, t.Storable →
    t.toDatum.depth < fuel → Holds p t.toDatum → Token.read? F fuel p = some t
  | 0, _, _, _, nested, _ => absurd nested (Nat.not_lt_zero _)
  | fuel + 1, ⟨m, required, repeated, ahead, notAhead, n, pos⟩, _, ⟨matcher, _, _⟩, nested, holds => by
      obtain ⟨given, fields, each⟩ := lawful.fields holds (by cases pos <;> simp [fieldIfSome])
      have deep := depth_field "descriptor" m.toDatum nested (by simp)
      have here := lawful.required (each "descriptor") fun q => Matcher.read?_of_holds lawful fuel matcher deep
      have requires := lawful.orElse true (each "required") fun _ => lawful.bool
      have repeats := lawful.orElse false (each "repeat") fun _ => lawful.bool
      have looks := lawful.orElse false (each "and") fun _ => lawful.bool
      have denies := lawful.orElse false (each "not") fun _ => lawful.bool
      have numbered := lawful.orElse 0 (each "id") fun _ => lawful.nat
      have located := SourcePosition.optional?_of_holds (s := pos) lawful (by cases pos <;> exact each "pos")
      rw [Token.read?, fields]
      simp [here, requires, repeats, looks, denies, numbered, located]

/-- A pattern is read from the part that holds it. -/
theorem Pattern.read?_of_holds (lawful : F.Lawful Holds) : ∀ (fuel : Nat) {one : Pattern} {p : F.Part},
    one.Storable → one.toDatum.depth < fuel → Holds p one.toDatum → Pattern.read? F fuel p = some one
  | 0, _, _, _, nested, _ => absurd nested (Nat.not_lt_zero _)
  | fuel + 1, ⟨ts, canFail, n⟩, _, ⟨tokens, _⟩, nested, holds => by
      obtain ⟨given, fields, each⟩ := lawful.fields holds (by simp)
      have deep := depth_field "tokens" (.array (Token.listToDatum ts)) nested (by simp)
      have here := lawful.required (each "tokens") fun q list =>
        Token.list?_of_holds lawful tokens (Nat.lt_succ_of_lt deep) list (Token.read?_of_holds lawful fuel)
      have fails := lawful.orElse true (each "can_fail") fun _ => lawful.bool
      have numbered := lawful.orElse 0 (each "id") fun _ => lawful.nat
      rw [Pattern.read?, fields]
      simp [here, fails, numbered]

end

mutual

theorem Matcher.beq_self : ∀ m : Matcher, m.beq m = true
  | .capture patterns _ => by rw [Matcher.beq, Pattern.beqList_self patterns, beq_self_eq_true]; rfl
  | .group patterns => Pattern.beqList_self patterns
  | .ref _ _ => by rw [Matcher.beq, beq_self_eq_true, beq_self_eq_true]; rfl
  | .literal _ _ => by rw [Matcher.beq, beq_self_eq_true, beq_self_eq_true]; rfl
  | .charClass _ _ => by rw [Matcher.beq, beq_self_eq_true, beq_self_eq_true]; rfl
  | .any terminal => beq_self_eq_true terminal

theorem Token.beqList_self : ∀ ts : List Token, Token.beqList ts ts = true
  | [] => rfl
  | ⟨matcher, _, _, _, _, _, _⟩ :: rest => by
      simp only [Token.beqList, Matcher.beq_self matcher, Token.beqList_self rest, beq_self_eq_true, Bool.and_true]

theorem Pattern.beqList_self : ∀ ps : List Pattern, Pattern.beqList ps ps = true
  | [] => rfl
  | ⟨tokens, _, _⟩ :: rest => by
      simp only [Pattern.beqList, Token.beqList_self tokens, Pattern.beqList_self rest, beq_self_eq_true,
        Bool.and_true]

end

/-! ## Rules, rulesets and constants -/

theorem List.beq_self_of_forall {α : Type} [BEq α] {xs : List α} (same : ∀ x ∈ xs, (x == x) = true) :
    (xs == xs) = true := by
  induction xs with
  | nil => rfl
  | cons x rest ih =>
      obtain ⟨first, later⟩ := List.forall_mem_cons.1 same
      show (x == x && rest == rest) = true
      rw [first, ih later]
      rfl

namespace Rule

/-- The numbers of the rule have 64 bits, and the literal values of its output are without floats and
sorted by key. -/
structure Storable (r : Rule) : Prop where
  patterns : Pattern.StorableList r.patterns
  output : ∀ t, r.output = some t → t.Storable
  id : r.id < UInt64.size
  pos : ∀ p, r.pos = some p → p.Sized

theorem Storable.toDatum_exact {r : Rule} (storable : r.Storable) : r.toDatum.IsExact := by
  refine haveExact_append.2 ⟨haveExact_append.2 ⟨haveExact_append.2 ⟨?_, ?_⟩, ?_⟩, ?_⟩
  · exact ⟨Pattern.listToDatum_exact storable.patterns, trivial⟩
  · exact haveExact_fieldIfSome.2 fun t given => Template.toDatum_exact (storable.output t given)
  · exact ⟨areExact_map fun _ _ => trivial, storable.id, trivial⟩
  · exact SourcePosition.fieldIfSome_exact storable.pos

theorem Storable.read?_of_holds (lawful : F.Lawful Holds) {r : Rule} (storable : r.Storable) {p : F.Part}
    (nested : r.toDatum.depth < F.maxNesting + 1) (holds : Holds p r.toDatum) : read? F p = some r := by
  obtain ⟨ps, template, arities, n, place⟩ := r
  obtain ⟨given, fields, each⟩ := lawful.fields holds (by
    cases template <;> cases place <;> simp [fieldIfSome])
  have deep := depth_field "patterns" (.array (Pattern.listToDatum ps)) nested (by simp)
  have patterns := lawful.required (each "patterns") fun q list =>
    Pattern.list?_of_holds lawful storable.patterns (Nat.lt_succ_of_lt (Nat.lt_succ_of_lt deep)) list
      (Pattern.read?_of_holds lawful (F.maxNesting + 1))
  have output : F.optional? (Template.read? F (F.maxNesting + 1)) (given "output") = some template := by
    refine lawful.optional ?_ (fun t some q => ?_) Template.shape_toDatum_ne
    · cases template <;> cases place <;> exact each "output"
    · have shallow := depth_field "output" t.toDatum nested (by simp [some, fieldIfSome])
      exact Template.read?_of_holds lawful _ (storable.output t some) (Nat.lt_succ_of_lt shallow)
  have captures : F.orElse? [] (F.list? F.bool?) (given "captures") = some arities := by
    refine lawful.orElse [] (d := .array (arities.map .bool)) ?_ fun q list => ?_
    · cases template <;> cases place <;> exact each "captures"
    · exact lawful.list list fun _ _ _ => lawful.bool
  have numbered : F.orElse? 0 F.nat? (given "id") = some n := by
    refine lawful.orElse 0 (d := .nat n) ?_ fun _ => lawful.nat
    cases template <;> cases place <;> exact each "id"
  have located : F.optional? (SourcePosition.read? F) (given "pos") = some place := by
    refine SourcePosition.optional?_of_holds lawful ?_
    cases template <;> cases place <;> exact each "pos"
  rw [read?, fields]
  simp [patterns, output, captures, numbered, located]

theorem Storable.beq_self {r : Rule} (storable : r.Storable) : (r == r) = true := by
  have output : (r.output == r.output) = true := by
    have := storable.output
    cases given : r.output with
    | none => rfl
    | some t => exact Template.beq_self (this t given)
  show (Pattern.beqList r.patterns r.patterns && r.output == r.output && r.captures == r.captures && r.id == r.id &&
    r.pos == r.pos) = true
  rw [Pattern.beqList_self, output, beq_self_eq_true, beq_self_eq_true, beq_self_eq_true]
  rfl

end Rule

namespace Ruleset

/-- The numbers of the ruleset have 64 bits, and the literal values of its outputs are without floats
and sorted by key. -/
structure Storable (s : Ruleset) : Prop where
  rules : ∀ r ∈ s.rules, r.Storable
  id : s.id < UInt64.size
  pos : ∀ p, s.pos = some p → p.Sized

theorem Storable.toDatum_exact {s : Ruleset} (storable : s.Storable) : s.toDatum.IsExact :=
  haveExact_append.2 ⟨⟨trivial, areExact_map fun r member => (storable.rules r member).toDatum_exact, storable.id,
    trivial⟩, SourcePosition.fieldIfSome_exact storable.pos⟩

theorem Storable.read?_of_holds (lawful : F.Lawful Holds) {s : Ruleset} (storable : s.Storable) {p : F.Part}
    (nested : s.toDatum.depth < F.maxNesting + 1) (holds : Holds p s.toDatum) : read? F p = some s := by
  obtain ⟨name, alternatives, n, place⟩ := s
  obtain ⟨given, fields, each⟩ := lawful.fields holds (by cases place <;> simp [fieldIfSome])
  have deep := depth_field "rules" (.array (alternatives.map Rule.toDatum)) nested (by simp)
  have named := lawful.required (each "name") fun _ => lawful.string
  have rules := lawful.required (each "rules") fun q list =>
    lawful.list list fun r member _ => (storable.rules r member).read?_of_holds lawful
      (Nat.lt_succ_of_lt (depth_item (Nat.lt_succ_of_lt deep) member))
  have numbered := lawful.orElse 0 (each "id") fun _ => lawful.nat
  have located : F.optional? (SourcePosition.read? F) (given "pos") = some place := by
    refine SourcePosition.optional?_of_holds lawful ?_
    cases place <;> exact each "pos"
  rw [read?, fields]
  simp [named, rules, numbered, located]

theorem Storable.beq_self {s : Ruleset} (storable : s.Storable) : (s == s) = true := by
  have rules := List.beq_self_of_forall fun r member => (storable.rules r member).beq_self
  show (s.name == s.name && s.rules == s.rules && s.id == s.id && s.pos == s.pos) = true
  rw [rules, beq_self_eq_true, beq_self_eq_true, beq_self_eq_true]
  rfl

end Ruleset

namespace Constant

/-- The numbers of the constant have 64 bits, and its literal values are without floats and sorted by
key. -/
structure Storable (c : Constant) : Prop where
  value : c.value.Storable
  pos : ∀ p, c.pos = some p → p.Sized

theorem Storable.toDatum_exact {c : Constant} (storable : c.Storable) : c.toDatum.IsExact :=
  haveExact_append.2 ⟨⟨trivial, Template.toDatum_exact storable.value, trivial⟩,
    SourcePosition.fieldIfSome_exact storable.pos⟩

theorem Storable.read?_of_holds (lawful : F.Lawful Holds) {c : Constant} (storable : c.Storable) {p : F.Part}
    (nested : c.toDatum.depth < F.maxNesting + 1) (holds : Holds p c.toDatum) : read? F p = some c := by
  obtain ⟨name, template, place⟩ := c
  obtain ⟨given, fields, each⟩ := lawful.fields holds (by cases place <;> simp [fieldIfSome])
  have deep := depth_field "value" template.toDatum nested (by simp)
  have named := lawful.required (each "name") fun _ => lawful.string
  have value := lawful.required (each "value") fun q =>
    Template.read?_of_holds lawful _ storable.value (Nat.lt_succ_of_lt deep)
  have located : F.optional? (SourcePosition.read? F) (given "pos") = some place := by
    refine SourcePosition.optional?_of_holds lawful ?_
    cases place <;> exact each "pos"
  rw [read?, fields]
  simp [named, value, located]

theorem Storable.beq_self {c : Constant} (storable : c.Storable) : (c == c) = true := by
  show (c.name == c.name && c.value.beq c.value && c.pos == c.pos) = true
  rw [Template.beq_self storable.value, beq_self_eq_true, beq_self_eq_true]
  rfl

end Constant

/-! ## Grammars -/

namespace Grammar

/-- The numbers of the grammar have 64 bits, and its literal values are without floats and sorted by
key. -/
structure Storable (g : Grammar) : Prop where
  rulesets : ∀ s ∈ g.rulesets, s.Storable
  constants : ∀ c ∈ g.constants, c.Storable
  maxId : g.maxId < UInt64.size

theorem Storable.toDatum_exact {g : Grammar} (storable : g.Storable) : g.toDatum.IsExact :=
  ⟨areExact_map fun s member => (storable.rulesets s member).toDatum_exact,
    areExact_map fun c member => (storable.constants c member).toDatum_exact, storable.maxId, trivial⟩

theorem Storable.readPart?_of_holds (lawful : F.Lawful Holds) {g : Grammar} (storable : g.Storable) {p : F.Part}
    (nested : g.toDatum.depth < F.maxNesting + 1) (holds : Holds p g.toDatum) :
    readPart? F p = some { g with lookup := [] } := by
  obtain ⟨given, fields, each⟩ := lawful.fields holds (by simp)
  have inRulesets := depth_field "rulesets" (.array (g.rulesets.map Ruleset.toDatum)) nested (by simp)
  have inConstants := depth_field "vars" (.array (g.constants.map Constant.toDatum)) nested (by simp)
  have rulesets := lawful.required (each "rulesets") fun q list =>
    lawful.list list fun s member _ => (storable.rulesets s member).read?_of_holds lawful
      (Nat.lt_succ_of_lt (depth_item (Nat.lt_succ_of_lt inRulesets) member))
  have constants := lawful.orElse [] (each "vars") fun q list =>
    lawful.list list fun c member _ => (storable.constants c member).read?_of_holds lawful
      (Nat.lt_succ_of_lt (depth_item (Nat.lt_succ_of_lt inConstants) member))
  have numbered := lawful.orElse 0 (each "max_id") fun _ => lawful.nat
  rw [readPart?, fields]
  simp [rulesets, constants, numbered]

/-- A grammar can be written in a lawful format, reads back from its text, and equals what is read:
nothing that is compared is lost. The places of rulesets by name are not written. -/
theorem text_reads_back (lawful : F.Lawful Holds) {g : Grammar} (storable : g.Storable)
    (nested : g.toDatum.depth ≤ F.maxNesting) :
    ∃ text, g.write? F = some text ∧ read? F text = some { g with lookup := [] } ∧
      ({ g with lookup := [] } == g) = true := by
  obtain ⟨text, p, written, found, holds⟩ := lawful.text storable.toDatum_exact nested
  refine ⟨text, written, ?_, ?_⟩
  · rw [read?, found, Option.bind_eq_bind, Option.bind_some]
    exact storable.readPart?_of_holds lawful (Nat.lt_succ_of_le nested) holds
  · have rulesets := List.beq_self_of_forall fun s member => (storable.rulesets s member).beq_self
    have constants := List.beq_self_of_forall fun c member => (storable.constants c member).beq_self
    show (g.rulesets == g.rulesets && g.constants == g.constants && g.maxId == g.maxId) = true
    rw [rulesets, constants, beq_self_eq_true]
    rfl

end Grammar

end

namespace Grammar

/-- A quoted line break in a group that may be missing, with annotations and positions; the output
has a member that is a literal object, and spreads another. -/
def quotedBreak : Grammar where
  rulesets := [{
    name := "return"
    rules := [{
      patterns := [⟨[⟨.capture [⟨[⟨.literal "\"\n\"" (some 0), false, false, false, false, 3, some ⟨0, 1, 1⟩⟩], true, 2⟩] 1,
        true, false, false, false, 1, none⟩], true, 0⟩]
      output := some (.object [.pair "a" (.literal (.object [("k", .array [.int (-7), .null])])),
        .merge ⟨.constant "c", [.index 0, .property "p"], some ⟨5, 2, 3⟩⟩])
      captures := [false] }]
    id := 4 }]
  constants := [{ name := "c", value := .array [.literal (.string "\\")] }]
  lookup := [("return", 0)]
  maxId := 4

theorem text_reads_back_of_quotedBreak : Json.format.Lawful Json.Holds ∧ quotedBreak.Storable ∧
    quotedBreak.toDatum.depth ≤ Json.format.maxNesting ∧
    ∃ text, quotedBreak.write? Json.format = some text ∧
      read? Json.format text = some { quotedBreak with lookup := [] } ∧
      ({ quotedBreak with lookup := [] } == quotedBreak) = true := by
  have nested : quotedBreak.toDatum.depth ≤ Json.format.maxNesting := by decide
  have small {n : Nat} (lt : n < 10) : n < UInt64.size := Nat.lt_trans lt (by decide)
  have storable : quotedBreak.Storable := by
    refine ⟨List.forall_mem_singleton.2 ⟨List.forall_mem_singleton.2 ⟨?_, ?_, small (by decide), nofun⟩,
      small (by decide), nofun⟩, List.forall_mem_singleton.2 ⟨?_, nofun⟩, small (by decide)⟩
    · simp [Pattern.StorableList, Token.StorableList, Matcher.Storable, Annotated, SourcePosition.Sized, small]
    · rintro t ⟨⟩
      simp [Template.object, Template.literal, Template.ofKind, Template.Storable, Template.StorableKind,
        Template.StorableMembers, Access.Sized, SourcePosition.Sized, Value.storable_iff, Value.IsMap, Value.AreMaps,
        Value.HaveMaps, Value.Floatless, Value.AreFloatless, Value.HaveFloatless, Keyed.Sorted, small]
    · simp [Template.array, Template.literal, Template.ofKind, Template.Storable, Template.StorableKind,
        Template.StorableItems, Value.storable_iff, Value.IsMap, Value.Floatless]
  exact ⟨Json.format_lawful, storable, nested, text_reads_back Json.format_lawful storable nested⟩

end Grammar

end PegFlow
