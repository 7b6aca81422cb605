/-
# PegFlow.Proofs.Terminal.Interning -- the table of terminals and its index in step

`TerminalTable.Holds table forms` ties the two halves of a table to the forms that were put in
it, in order and each once: the terminals are those of the forms, and the index has the place of
each form and nothing else. A request keeps it (`TerminalTable.Holds.request`): it finds its form,
or puts it at the end, or is refused and changes nothing. So it holds after any requests, and the
answer to each of them is the place of its form, then and ever after
(`TerminalTable.Holds.requestAll`).

`Terminal.Interned` says what that means for ids, without the table behind them
(`TerminalTable.Holds.interned`).
-/
import PegFlow.Terminal
import Mathlib.Data.List.Nodup

namespace PegFlow

set_option autoImplicit false

namespace Terminal

/-- How a terminal is written. -/
def form : Terminal → Form
  | .literal text => .literal text
  | .charClass spec _ => .charClass spec
  | .any => .any

/-- The terminal that is written so, or the first range whose ends are in the wrong order. -/
def Form.terminal? : Form → Except CharRange Terminal
  | .literal text => .ok (.literal text)
  | .charClass spec => ofClass? spec
  | .any => .ok .any

theorem ofClass?_eq_ok {spec : ClassSpec} {t : Terminal} (own : ofClass? spec = .ok t) :
    ∃ c, CharClass.compile? spec = .ok c ∧ t = .charClass spec c := by
  rw [ofClass?] at own
  cases compiled : CharClass.compile? spec with
  | error r =>
      rw [compiled] at own
      cases own
  | ok c =>
      rw [compiled] at own
      cases own
      exact ⟨c, rfl, rfl⟩

theorem Form.form_of_terminal? {f : Form} {t : Terminal} (own : f.terminal? = .ok t) : t.form = f := by
  cases f with
  | literal text =>
      cases own
      rfl
  | charClass spec =>
      obtain ⟨c, -, rfl⟩ := ofClass?_eq_ok own
      rfl
  | any =>
      cases own
      rfl

/-- Ids below `n` that were given for forms, and the terminals that they get: equal forms have
equal ids and different forms different ones, every id below `n` was given, and it gets the
terminal of the form that it was given for. -/
structure Interned (given : Form → Nat → Prop) (n : Nat) (get : Nat → Option Terminal) : Prop where
  same_iff : ∀ {f f' : Form} {id id' : Nat}, given f id → given f' id' → (id = id' ↔ f = f')
  dense : ∀ id, (∃ f, given f id) ↔ id < n
  built : ∀ {f : Form} {id : Nat}, given f id → ∃ t, f.terminal? = .ok t ∧ get id = some t

end Terminal

namespace TerminalTable

open Terminal

/-- The table holds the terminals of `forms`, in their order and each once, and its index has
their places. -/
structure Holds (table : TerminalTable) (forms : List Form) : Prop where
  distinct : forms.Nodup
  built : forms.map Form.terminal? = table.terminals.map .ok
  found : ∀ (f : Form) (id : Nat), table.id? f = some id ↔ forms[id]? = some f

variable {table : TerminalTable} {forms : List Form} {f : Form} {t : Terminal}

theorem holds_empty : empty.Holds [] := by
  refine ⟨List.nodup_nil, rfl, ?_⟩
  intro f id
  simp [id?, empty]

namespace Holds

theorem length_eq (holds : table.Holds forms) : forms.length = table.size := by
  have lengths := congrArg List.length holds.built
  rwa [List.length_map, List.length_map] at lengths

theorem get?_eq (holds : table.Holds forms) {id : Nat} (here : forms[id]? = some f) :
    ∃ t, f.terminal? = .ok t ∧ table.get? id = some t := by
  have places := congrArg (fun xs => xs[id]?) holds.built
  simp only [List.getElem?_map, here, Option.map_some] at places
  obtain ⟨t, got, own⟩ := Option.map_eq_some_iff.1 places.symm
  exact ⟨t, own.symm, got⟩

/-- A form is in the table when it has a terminal there. -/
theorem exists_form (holds : table.Holds forms) (member : t ∈ table.terminals) :
    ∃ f ∈ forms, f.terminal? = .ok t := by
  have among : (Except.ok t : Except CharRange Terminal) ∈ forms.map Form.terminal? := by
    rw [holds.built]
    exact List.mem_map_of_mem member
  exact List.mem_map.1 among

/-- The terminals are all different, since each tells how it is written. -/
theorem nodup (holds : table.Holds forms) : table.terminals.Nodup := by
  have written : table.terminals.map form = forms := by
    apply List.ext_getElem?
    intro id
    rw [List.getElem?_map]
    cases here : forms[id]? with
    | none =>
        have beyond : table.terminals.length ≤ id := by
          have length := holds.length_eq
          rw [List.getElem?_eq_none_iff, length] at here
          exact here
        rw [List.getElem?_eq_none beyond, Option.map_none]
    | some f =>
        obtain ⟨t, own, got⟩ := holds.get?_eq here
        change table.terminals[id]? = some t at got
        rw [got, Option.map_some, Form.form_of_terminal? own]
  apply List.Nodup.of_map form
  rw [written]
  exact holds.distinct

/-- A form that is not in the table yet is put at the end. -/
theorem insert (holds : table.Holds forms) (new : f ∉ forms) (own : f.terminal? = .ok t) :
    (table.insert f t).2.Holds (forms ++ [f]) := by
  refine ⟨?_, ?_, ?_⟩
  · apply List.Nodup.append holds.distinct (List.nodup_singleton f)
    simpa using new
  · simp [TerminalTable.insert, holds.built, own]
  · intro g id
    have old := holds.found g id
    rw [id?] at old
    rw [id?, TerminalTable.insert, List.lookup_cons]
    by_cases same : g = f
    · subst same
      rw [beq_self_eq_true, ← holds.length_eq]
      constructor
      · intro given
        cases given
        simp
      · intro here
        rw [List.getElem?_append] at here
        split at here
        · exact absurd (List.mem_of_getElem? here) new
        · rename_i behind
          have last : id - forms.length = 0 := by
            have lt := (List.getElem?_eq_some_iff.1 here).1
            simpa using lt
          exact congrArg some (by omega)
    · have other : (g == f) = false := by simpa using same
      rw [other, old]
      constructor
      · intro here
        rw [List.getElem?_append_left (List.getElem?_eq_some_iff.1 here).1, here]
      · intro here
        rw [List.getElem?_append] at here
        split at here
        · exact here
        · have last := List.mem_of_getElem? here
          exact absurd (List.mem_singleton.1 last) same

/-- Interning gives the place of the form, among the old ones or behind them. -/
theorem intern (holds : table.Holds forms) (own : f.terminal? = .ok t) :
    ∃ forms', forms <+: forms' ∧ (table.intern f t).2.Holds forms' ∧
      forms'[(table.intern f t).1]? = some f ∧ ∀ g ∈ forms', g ∈ forms ∨ g = f := by
  rw [TerminalTable.intern]
  cases known : table.id? f with
  | some id => exact ⟨forms, List.prefix_rfl, holds, (holds.found f id).1 known, fun g member => Or.inl member⟩
  | none =>
      have new : f ∉ forms := by
        intro member
        obtain ⟨id, here⟩ := List.getElem?_of_mem member
        rw [(holds.found f id).2 here] at known
        cases known
      refine ⟨forms ++ [f], List.prefix_append _ _, holds.insert new own, ?_, ?_⟩
      · show (forms ++ [f])[table.size]? = some f
        rw [← holds.length_eq]
        simp
      · intro g member
        simpa using member

/-- A class with a range in the wrong order is not in the table and is not put there. -/
theorem requestClass_of_error (holds : table.Holds forms) {spec : ClassSpec} {r : CharRange}
    (refused : ofClass? spec = .error r) : table.requestClass spec = (.error r, table) := by
  rw [requestClass]
  cases known : table.id? (.charClass spec) with
  | some id =>
      obtain ⟨t, own, -⟩ := holds.get?_eq ((holds.found _ id).1 known)
      cases refused.symm.trans own
  | none => rw [refused]

theorem charClass_of_error (holds : table.Holds forms) {spec : ClassSpec} {r : CharRange}
    (refused : ofClass? spec = .error r) : table.charClass spec = .error r := by
  rw [charClass, holds.requestClass_of_error refused]

/-- The ids that were given for the forms of a table. -/
theorem interned (holds : table.Holds forms) {given : Form → Nat → Prop}
    (sound : ∀ f id, given f id → forms[id]? = some f) (full : ∀ f ∈ forms, ∃ id, given f id) :
    Interned given table.size table.get? := by
  refine ⟨?_, ?_, ?_⟩
  · intro f f' id id' one other
    have here := sound f id one
    have here' := sound f' id' other
    constructor
    · rintro rfl
      exact Option.some.inj (here.symm.trans here')
    · rintro rfl
      exact (List.getElem?_inj (List.getElem?_eq_some_iff.1 here).1 holds.distinct).1 (here.trans here'.symm)
  · intro id
    rw [← holds.length_eq]
    constructor
    · rintro ⟨f, one⟩
      exact (List.getElem?_eq_some_iff.1 (sound f id one)).1
    · intro lt
      have here := List.getElem?_eq_getElem lt
      obtain ⟨id', one⟩ := full _ (List.mem_of_getElem? here)
      obtain rfl : id = id' := (List.getElem?_inj lt holds.distinct).1 (here.trans (sound _ id' one).symm)
      exact ⟨_, one⟩
  · intro f id one
    exact holds.get?_eq (sound f id one)

end Holds

theorem requestClass_of_ok {spec : ClassSpec} (own : ofClass? spec = .ok t) : table.requestClass spec =
    (.ok (table.intern (.charClass spec) t).1, (table.intern (.charClass spec) t).2) := by
  rw [requestClass, intern]
  cases table.id? (.charClass spec) with
  | some id => rfl
  | none => rw [own]

theorem charClass_of_ok {spec : ClassSpec} (own : ofClass? spec = .ok t) :
    table.charClass spec = .ok (table.intern (.charClass spec) t) := by
  rw [charClass, requestClass_of_ok own]

/-! ## Requests -/

/-- Ask for what is written so: the answer, and the table afterwards. -/
def request (table : TerminalTable) : Form → Except CharRange Nat × TerminalTable
  | .literal text => (.ok (table.literal text).1, (table.literal text).2)
  | .charClass spec => table.requestClass spec
  | .any => (.ok table.any.1, table.any.2)

/-- What is refused leaves the table as it is. -/
theorem request_of_error {r : CharRange} (refused : (table.request f).1 = .error r) :
    (table.request f).2 = table := by
  cases f with
  | literal text => cases refused
  | any => cases refused
  | charClass spec =>
      rw [request, requestClass] at refused ⊢
      cases known : table.id? (.charClass spec) with
      | some id => rfl
      | none =>
          cases own : ofClass? spec with
          | error r' => rfl
          | ok t =>
              rw [known, own] at refused
              cases refused

/-- Ask for one after the other: each request with its answer, and the table in the end. -/
def requestAll (table : TerminalTable) : List Form → List (Form × Except CharRange Nat) × TerminalTable
  | [] => ([], table)
  | f :: rest =>
    let (answer, after) := table.request f
    let (answers, last) := after.requestAll rest
    ((f, answer) :: answers, last)

theorem requestAll_append (table : TerminalTable) (before after : List Form) :
    table.requestAll (before ++ after) =
      ((table.requestAll before).1 ++ ((table.requestAll before).2.requestAll after).1,
        ((table.requestAll before).2.requestAll after).2) := by
  induction before generalizing table with
  | nil => rfl
  | cons f rest ih => simp only [List.cons_append, requestAll, ih]

theorem requestAll_requests (table : TerminalTable) (requests : List Form) :
    (table.requestAll requests).1.map Prod.fst = requests := by
  induction requests generalizing table with
  | nil => rfl
  | cons f rest ih => simp only [requestAll, List.map_cons, ih]

/-- A request interns its terminal, or has none and leaves the table as it is. -/
theorem Holds.request (holds : table.Holds forms) (f : Form) :
    (∃ r, f.terminal? = .error r ∧ table.request f = (.error r, table)) ∨
      ∃ t, f.terminal? = .ok t ∧ table.request f = (.ok (table.intern f t).1, (table.intern f t).2) := by
  cases f with
  | literal text => exact Or.inr ⟨_, rfl, rfl⟩
  | any => exact Or.inr ⟨_, rfl, rfl⟩
  | charClass spec =>
      rw [TerminalTable.request]
      cases own : ofClass? spec with
      | error r => exact Or.inl ⟨r, own, holds.requestClass_of_error own⟩
      | ok t => exact Or.inr ⟨t, own, requestClass_of_ok own⟩

/-- What a table holds after requests. The induction is on the requests: a later one keeps the
forms that are there in their places, so the answers before it stay right. -/
theorem Holds.requestAll (holds : table.Holds forms) (requests : List Form) :
    ∃ forms', forms <+: forms' ∧ (table.requestAll requests).2.Holds forms' ∧
      (∀ f id, (f, .ok id) ∈ (table.requestAll requests).1 → forms'[id]? = some f) ∧
      (∀ f ∈ forms', f ∈ forms ∨ ∃ id, (f, .ok id) ∈ (table.requestAll requests).1) ∧
      ∀ f r, (f, .error r) ∈ (table.requestAll requests).1 → f.terminal? = .error r := by
  induction requests generalizing table forms with
  | nil =>
      refine ⟨forms, List.prefix_rfl, holds, ?_, fun f member => Or.inl member, ?_⟩
      · intro f id none
        cases none
      · intro f r none
        cases none
  | cons first rest ih =>
      rcases holds.request first with ⟨r, refused, step⟩ | ⟨t, own, step⟩
      · obtain ⟨forms', grown, last, answers, origin, errors⟩ := ih holds
        simp only [TerminalTable.requestAll, step, List.mem_cons, Prod.mk.injEq, reduceCtorEq, and_false, false_or]
        refine ⟨forms', grown, last, answers, origin, ?_⟩
        rintro f r' (⟨rfl, same⟩ | later)
        · cases same
          exact refused
        · exact errors f r' later
      · obtain ⟨between, grown, kept, place, added⟩ := holds.intern own
        obtain ⟨forms', grown', last, answers, origin, errors⟩ := ih kept
        simp only [TerminalTable.requestAll, step, List.mem_cons, Prod.mk.injEq, reduceCtorEq, and_false, false_or,
          Except.ok.injEq]
        refine ⟨forms', grown.trans grown', last, ?_, ?_, errors⟩
        · rintro f id (⟨rfl, rfl⟩ | later)
          · obtain ⟨more, rfl⟩ := grown'
            rw [List.getElem?_append_left (List.getElem?_eq_some_iff.1 place).1, place]
          · exact answers f id later
        · intro f member
          rcases origin f member with old | ⟨id, later⟩
          · rcases added f old with older | rfl
            · exact Or.inl older
            · exact Or.inr ⟨_, Or.inl ⟨rfl, rfl⟩⟩
          · exact Or.inr ⟨id, Or.inr later⟩

end TerminalTable

end PegFlow
