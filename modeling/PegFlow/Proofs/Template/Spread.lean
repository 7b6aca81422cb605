/-
# PegFlow.Proofs.Template.Spread -- objects as lists of pairs and back

An object that is spread into an array gives the pairs of its keys and values, and pairs that are
merged into an object give its members. The two are inverse (`Template.spread_merge`): an object
comes back as it was, and a list of pairs in the order of its keys, each with its last value. What
is no pair is refused.
-/
import PegFlow.Grammar.Constants
import PegFlow.Proofs.Value.Keyed

namespace PegFlow

set_option autoImplicit false

namespace Value

/-- The value is a pair of a key and a value. -/
def IsEntry (v : Value) : Prop := ∃ key value, v = .entry key value

/-- The array of these pairs. -/
def ofEntries (pairs : List (String × Value)) : Value := .array (pairs.map fun p => .entry p.1 p.2)

theorem memberParts_ofEntries (pairs : List (String × Value)) : (ofEntries pairs).memberParts = .ok pairs := by
  show (pairs.map fun p => Value.entry p.1 p.2).mapM asEntry = .ok pairs
  induction pairs with
  | nil => rfl
  | cons p rest ih =>
      rw [List.map_cons, List.mapM_cons, ih]
      rfl

theorem asEntry_of_not_isEntry {v : Value} (other : ¬ v.IsEntry) : v.asEntry = .error (.invalidSpread v.kind) := by
  rw [asEntry.eq_def]
  split
  · rename_i key value
    exact absurd ⟨key, value, rfl⟩ other
  · rfl

/-- The first value that is no pair is the one that is refused. -/
theorem memberParts_fails_at {items : List Value} (others : ∃ v ∈ items, ¬ v.IsEntry) :
    ∃ before v after, items = before ++ v :: after ∧ (∀ w ∈ before, w.IsEntry) ∧ ¬ v.IsEntry ∧
      (array items).memberParts = .error (.invalidSpread v.kind) := by
  show ∃ before v after, _ ∧ _ ∧ _ ∧ items.mapM asEntry = _
  induction items with
  | nil => exact absurd others (by simp)
  | cons first rest ih =>
      by_cases isEntry : first.IsEntry
      · have later : ∃ v ∈ rest, ¬ v.IsEntry :=
          ((List.exists_mem_cons_iff ..).1 others).resolve_left (not_not.2 isEntry)
        obtain ⟨before, v, after, rfl, entries, other, fails⟩ := ih later
        refine ⟨first :: before, v, after, rfl, List.forall_mem_cons.2 ⟨isEntry, entries⟩, other, ?_⟩
        obtain ⟨key, value, rfl⟩ := isEntry
        rw [List.mapM_cons, fails]
        rfl
      · refine ⟨[], first, rest, rfl, List.forall_mem_nil _, isEntry, ?_⟩
        rw [List.mapM_cons, asEntry_of_not_isEntry isEntry]
        rfl

end Value

namespace Template

/-- Without access a node has the value of its kind. -/
theorem eval_ofKind (s : Scope) (kind : TemplateKind) : (ofKind kind).eval s = evalKind s kind := by
  rw [ofKind, eval]
  cases evalKind s kind <;> rfl

theorem eval_array_spread (s : Scope) (t : Template) :
    (array [spread t]).eval s = do return .array (← (← t.eval s).parts) := by
  rw [array, eval_ofKind, evalKind]
  show (do return Value.array (← (do
    let here ← (← t.eval s).parts
    return here ++ (← pure [])))) = _
  simp only [bind_assoc, pure_bind, List.append_nil]

theorem eval_object_merge (s : Scope) (t : Template) :
    (object [.merge t]).eval s = do return Value.ofMembers (← (← t.eval s).memberParts) := by
  rw [object, eval_ofKind, evalKind]
  show (do return Value.object (← (do
    let members ← (← t.eval s).memberParts
    pure (Keyed.insertAll [] members)))) = _
  simp only [bind_assoc, pure_bind]
  rfl

/-- Spreading and merging are inverse: an object that is spread into an array and merged again is
the object as it was; pairs that are merged into an object and spread again are there in the order
of their keys, and of the pairs of one key the last one. In an array that is merged the first item
that is no pair is refused. -/
theorem spread_merge (s : Scope) (t : Template) :
    (∀ members : Keyed Value, members.Sorted → t.eval s = .ok (.object members) →
      (object [.merge (array [spread t])]).eval s = .ok (.object members)) ∧
    (∀ pairs, t.eval s = .ok (.ofEntries pairs) →
      ∃ last : Keyed Value, last.Sorted ∧
        (∀ key value, (key, value) ∈ last ↔
          ∃ before after, pairs = before ++ (key, value) :: after ∧ key ∉ Keyed.keys after) ∧
        (array [spread (object [.merge t])]).eval s = .ok (.ofEntries last)) ∧
    (∀ items, t.eval s = .ok (.array items) → (∃ v ∈ items, ¬ v.IsEntry) →
      ∃ before v after, items = before ++ v :: after ∧ (∀ w ∈ before, w.IsEntry) ∧ ¬ v.IsEntry ∧
        (object [.merge t]).eval s = .error (.invalidSpread v.kind) ∧
        (array [spread (object [.merge t])]).eval s = .error (.invalidSpread v.kind)) := by
  refine ⟨fun members sorted given => ?_, fun pairs given => ?_, fun items given others => ?_⟩
  · have parts : (array [spread t]).eval s = .ok (.ofEntries members) := by
      rw [eval_array_spread, given]
      rfl
    rw [eval_object_merge, parts]
    show (do return Value.ofMembers (← (Value.ofEntries members).memberParts)) = _
    rw [Value.memberParts_ofEntries]
    exact congrArg (fun m => Except.ok (Value.object m)) sorted.ofList_eq
  · have merged : (object [.merge t]).eval s = .ok (.ofMembers pairs) := by
      rw [eval_object_merge, given]
      show (do return Value.ofMembers (← (Value.ofEntries pairs).memberParts)) = _
      rw [Value.memberParts_ofEntries]
      rfl
    refine ⟨Keyed.ofList pairs, Keyed.sorted_ofList pairs, fun key value => Keyed.mem_ofList_iff, ?_⟩
    rw [eval_array_spread, merged]
    rfl
  · obtain ⟨before, v, after, split, entries, other, fails⟩ := Value.memberParts_fails_at others
    have refused : (object [.merge t]).eval s = .error (.invalidSpread v.kind) := by
      rw [eval_object_merge, given]
      show (do return Value.ofMembers (← (Value.array items).memberParts)) = _
      rw [fails]
      rfl
    refine ⟨before, v, after, split, entries, other, refused, ?_⟩
    rw [eval_array_spread, refused]
    rfl

/-- An object that holds a pair. -/
def paired : Keyed Value := [("at", .entry "x" .null), ("by", .int 1)]

/-- Pairs with a key that comes twice. -/
def doubled : List (String × Value) := [("b", .int 1), ("a", .null), ("b", .int 2)]

/-- Written out in the scope of a constant: the pair inside the object is kept, of the pairs of one
key the last one stays, and a text among the pairs is refused. -/
theorem spread_merge_of_literals :
    paired.Sorted ∧ (literal (.object paired)).eval (.ofLibrary {}) = .ok (.object paired) ∧
    (object [.merge (array [spread (literal (.object paired))])]).eval (.ofLibrary {}) = .ok (.object paired) ∧
    (literal (.ofEntries doubled)).eval (.ofLibrary {}) = .ok (.ofEntries doubled) ∧
    (∃ last, ("b", .int 2) ∈ last ∧
      (array [spread (object [.merge (literal (.ofEntries doubled))])]).eval (.ofLibrary {}) =
        .ok (.ofEntries last)) ∧
    (literal (.array [.entry "a" .null, .string "b"])).eval (.ofLibrary {}) =
      .ok (.array [.entry "a" .null, .string "b"]) ∧
    ∃ kind, (object [.merge (literal (.array [.entry "a" .null, .string "b"]))]).eval (.ofLibrary {}) =
      .error (.invalidSpread kind) := by
  have sorted : paired.Sorted := by decide
  have back := (spread_merge (.ofLibrary {}) (literal (.object paired))).1 paired sorted rfl
  obtain ⟨last, -, members, pairs⟩ := (spread_merge (.ofLibrary {}) (literal (.ofEntries doubled))).2.1 doubled rfl
  have member : ("b", .int 2) ∈ last := (members _ _).2 ⟨[("b", .int 1), ("a", .null)], [], rfl, List.not_mem_nil⟩
  have other : ¬ (Value.string "b").IsEntry := nofun
  obtain ⟨_, v, _, -, -, -, refused, -⟩ :=
    (spread_merge (.ofLibrary {}) (literal (.array [.entry "a" .null, .string "b"]))).2.2 _ rfl
      ⟨_, List.mem_cons_of_mem _ List.mem_cons_self, other⟩
  exact ⟨sorted, rfl, back, rfl, ⟨last, member, pairs⟩, rfl, v.kind, refused⟩

end Template

end PegFlow
