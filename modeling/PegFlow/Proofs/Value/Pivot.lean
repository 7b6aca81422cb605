/-
# PegFlow.Proofs.Value.Pivot -- tables exchange their rows and columns

A table is a grid, an array of arrays, or a list of records, an array of objects, or an object of
columns. `Value.Transposes` says for each form, cell by cell, what its transposition is, and
`Value.Filled` what the table is with nulls in the place of all missing cells. Pivoting transposes
every table and fails on all other values, and pivoting a table with a cell twice fills it
(`Value.pivot_transposes`).
-/
import PegFlow.Proofs.Value.Keyed
import PegFlow.Value.Pivot
import Mathlib.Data.Set.List

namespace PegFlow.Value

set_option autoImplicit false

/-! ## Tables -/

/-- An array of arrays. -/
def ofGrid (rows : List (List Value)) : Value := .array (rows.map .array)

/-- An array of objects. -/
def ofRecords (rows : List (Keyed Value)) : Value := .array (rows.map .object)

/-- An object of arrays. -/
def ofColumns (columns : Keyed (List Value)) : Value := .object (columns.map fun c => (c.1, .array c.2))

/-- The item there, or null. -/
def cell (row : List Value) (j : Nat) : Value := row[j]?.getD .null

/-- The member with the key, or null. -/
def field (row : Keyed Value) (key : String) : Value := (row.get? key).getD .null

/-- The longest of the lists has this length; it is zero when there are none. -/
structure Longest (lists : List (List Value)) (length : Nat) : Prop where
  le : ∀ list ∈ lists, list.length ≤ length
  reached : length = 0 ∨ ∃ list ∈ lists, list.length = length

/-- The second table has the columns of the first one as its rows. -/
inductive Transposes : Value → Value → Prop
  /-- The arrays are as many as the longest row has items, and cell `j, i` is the cell `i, j`. -/
  | grid {rows columns : List (List Value)} (width : Longest rows columns.length)
      (heights : ∀ column ∈ columns, column.length = rows.length)
      (cells : ∀ (i : Nat) row, rows[i]? = some row → ∀ (j : Nat) column, columns[j]? = some column →
        column[i]? = some (cell row j)) :
      Transposes (ofGrid rows) (ofGrid columns)
  /-- The keys are those of all the objects. -/
  | records {rows : List (Keyed Value)} {columns : Keyed (List Value)} (occupied : rows ≠ [])
      (sorted : columns.Sorted) (keys : ∀ key, key ∈ columns.keys ↔ ∃ row ∈ rows, key ∈ row.keys)
      (heights : ∀ column ∈ columns, column.2.length = rows.length)
      (cells : ∀ (i : Nat) row, rows[i]? = some row → ∀ column ∈ columns,
        column.2[i]? = some (field row column.1)) :
      Transposes (ofRecords rows) (ofColumns columns)
  /-- The objects are as many as the longest column has items, and all have all keys. -/
  | columns {columns : Keyed (List Value)} {rows : List (Keyed Value)}
      (height : Longest (columns.map Prod.snd) rows.length) (keys : ∀ row ∈ rows, row.keys = columns.keys)
      (cells : ∀ (i : Nat) row, rows[i]? = some row → ∀ column ∈ columns,
        row.get? column.1 = some (cell column.2 i)) :
      Transposes (ofColumns columns) (ofRecords rows)

/-- A record with nulls for those of the keys that it does not have. -/
def fillKeys (keys : List String) (row : Keyed Value) : Keyed Value :=
  Keyed.ofList (keys.map (fun key => (key, .null)) ++ row)

/-- The second table is the first one with nulls for all missing cells. -/
inductive Filled : Value → Value → Prop
  | grid {rows : List (List Value)} {width : Nat} (longest : Longest rows width) :
      Filled (ofGrid rows) (ofGrid (rows.map (List.rightpad width .null)))
  | records {rows : List (Keyed Value)} (occupied : rows ≠ []) :
      Filled (ofRecords rows) (ofRecords (rows.map (fillKeys (rows.flatMap Keyed.keys))))
  | columns {columns : Keyed (List Value)} {height : Nat} (longest : Longest (columns.map Prod.snd) height) :
      Filled (ofColumns columns) (ofColumns (columns.map fun c => (c.1, c.2.rightpad height .null)))

/-- The value is no array or object, or an array with an item that is no array and one that is no
object, or an object with a member that is no array. -/
def Unpivotable : Value → Prop
  | .array rows => (∃ row ∈ rows, row.kind ≠ .array) ∧ ∃ row ∈ rows, row.kind ≠ .object
  | .object columns => ∃ column ∈ columns, column.2.kind ≠ .array
  | _ => True

/-- Some row and column of the table meet in a cell: there is at least one row and one column. -/
def HasCell : Value → Prop
  | .array rows => ∃ row ∈ rows, row.items ≠ [] ∨ row.members ≠ []
  | .object columns => ∃ column ∈ columns, column.2.items ≠ []
  | _ => False

theorem eq_array_of_kind {v : Value} (kind : v.kind = .array) : v = .array v.items := by
  cases v with
  | array items => rfl
  | _ => cases kind

theorem eq_object_of_kind {v : Value} (kind : v.kind = .object) : v = .object v.members := by
  cases v with
  | object members => rfl
  | _ => cases kind

theorem isArray_iff {v : Value} : v.isArray = true ↔ v.kind = .array := by
  cases v <;> simp [isArray, kind]

theorem isObject_iff {v : Value} : v.isObject = true ↔ v.kind = .object := by
  cases v <;> simp [isObject, kind]

/-- A value that can be pivoted is a table of one of the three forms. -/
theorem exists_form {v : Value} (pivotable : ¬ v.Unpivotable) :
    (∃ rows, v = ofGrid rows) ∨ (∃ rows, rows ≠ [] ∧ v = ofRecords rows) ∨ ∃ columns, v = ofColumns columns := by
  cases v with
  | array rows =>
      by_cases arrays : ∀ row ∈ rows, row.kind = .array
      · have isGrid : rows ∈ Set.range (List.map Value.array) := by
          rw [Set.range_list_map]
          exact fun row member => ⟨row.items, (eq_array_of_kind (arrays row member)).symm⟩
        obtain ⟨grid, rfl⟩ := isGrid
        exact Or.inl ⟨grid, rfl⟩
      · have areRecords : rows ∈ Set.range (List.map Value.object) := by
          rw [Set.range_list_map]
          intro row member
          by_contra other
          push Not at arrays
          exact pivotable ⟨arrays, row, member, fun object => other ⟨row.members, (eq_object_of_kind object).symm⟩⟩
        obtain ⟨records, rfl⟩ := areRecords
        refine Or.inr (Or.inl ⟨records, ?_, rfl⟩)
        rintro rfl
        exact arrays (List.forall_mem_nil _)
  | object members =>
      have areColumns : members ∈ Set.range (List.map fun c : String × List Value => (c.1, Value.array c.2)) := by
        rw [Set.range_list_map]
        intro column member
        by_contra other
        refine pivotable ⟨column, member, fun array => other ⟨(column.1, column.2.items), ?_⟩⟩
        exact Prod.ext rfl (eq_array_of_kind array).symm
      obtain ⟨columns, rfl⟩ := areColumns
      exact Or.inr (Or.inr ⟨columns, rfl⟩)
  | _ => exact absurd trivial pivotable

theorem pivot_unpivotable {v : Value} (unpivotable : v.Unpivotable) :
    ∃ found, v.pivot = .error (.invalidPivot found) := by
  cases v with
  | array rows =>
      obtain ⟨⟨row, member, notArray⟩, row', member', notObject⟩ := unpivotable
      have mixed : ¬ rows.all isArray = true := fun all =>
        notArray (isArray_iff.1 (List.all_eq_true.1 all row member))
      have mixed' : ¬ rows.all isObject = true := fun all =>
        notObject (isObject_iff.1 (List.all_eq_true.1 all row' member'))
      rw [pivot, if_neg mixed, if_neg mixed']
      exact ⟨_, rfl⟩
  | object columns =>
      obtain ⟨column, member, notArray⟩ := unpivotable
      rw [pivot]
      split
      · exact ⟨_, rfl⟩
      · rename_i none
        have array := List.find?_eq_none.1 none column member
        simp [isArray_iff, notArray] at array
  | _ => exact ⟨_, rfl⟩

/-! ## Lengths -/

/-- The length of the longest list. -/
def longest (lists : List (List Value)) : Nat := (lists.map List.length).foldl max 0

theorem longest_spec (lists : List (List Value)) : Longest lists (longest lists) := by
  rw [longest, List.foldl_max, Nat.zero_max]
  cases found : (lists.map List.length).max? with
  | none =>
      rw [List.max?_eq_none_iff, List.map_eq_nil_iff] at found
      subst found
      exact ⟨List.forall_mem_nil _, Or.inl rfl⟩
  | some n =>
      obtain ⟨member, above⟩ := List.max?_eq_some_iff.1 found
      obtain ⟨list, inside, length⟩ := List.mem_map.1 member
      exact ⟨fun list inside => above _ (List.mem_map_of_mem inside), Or.inr ⟨list, inside, length⟩⟩

theorem Longest.unique {lists : List (List Value)} {n m : Nat} (long : Longest lists n) (long' : Longest lists m) :
    n = m := by
  have below : ∀ {n m : Nat}, Longest lists n → Longest lists m → n ≤ m := by
    rintro n m ⟨-, rfl | ⟨list, member, rfl⟩⟩ long'
    · exact Nat.zero_le m
    · exact long'.le list member
  exact Nat.le_antisymm (below long long') (below long' long)

theorem longest_ne_zero {lists : List (List Value)} (occupied : ∃ list ∈ lists, list ≠ []) : longest lists ≠ 0 := by
  obtain ⟨list, member, some⟩ := occupied
  intro none
  have empty := (longest_spec lists).le list member
  rw [none, Nat.le_zero, List.length_eq_zero_iff] at empty
  exact some empty

/-- Lists of one length, of which there is one. -/
theorem longest_of_forall {lists : List (List Value)} {n : Nat} (some : lists ≠ [])
    (lengths : ∀ list ∈ lists, list.length = n) : longest lists = n := by
  obtain ⟨list, member⟩ := List.exists_mem_of_ne_nil lists some
  exact (longest_spec lists).unique
    ⟨fun list member => Nat.le_of_eq (lengths list member), Or.inr ⟨list, member, lengths list member⟩⟩

theorem width_grid (lists : List (List Value)) : width (lists.map .array) = longest lists := by
  rw [width, longest, List.map_map]
  rfl

/-- Reading beyond the end gives the filling. -/
theorem map_range_cell {row : List Value} {n : Nat} (le : row.length ≤ n) :
    (List.range n).map (cell row) = row.rightpad n .null := by
  refine List.ext_getElem? fun j => ?_
  rw [List.getElem?_map, List.rightpad]
  by_cases inside : j < row.length
  · rw [List.getElem?_range (by omega), List.getElem?_append_left inside, Option.map_some,
      cell, List.getElem?_eq_getElem inside, Option.getD_some]
  · rw [List.getElem?_append_right (by omega), List.getElem?_replicate]
    split
    · rw [List.getElem?_range (by omega), Option.map_some, cell, List.getElem?_eq_none (by omega), Option.getD_none]
    · rw [List.getElem?_eq_none (by simp; omega), Option.map_none]

/-- What is made of each index is made of the row there. -/
theorem map_range_length {α β : Type} {rows : List α} {f : Nat → β} {g : α → β}
    (same : ∀ i row, rows[i]? = some row → f i = g row) : (List.range rows.length).map f = rows.map g := by
  refine List.ext_getElem (by simp) fun i lt lt' => ?_
  rw [List.getElem_map, List.getElem_map, List.getElem_range]
  exact same i _ (List.getElem?_eq_getElem _)

/-! ## Each form -/

/-- The columns of a grid. -/
def columnsOfGrid (rows : List (List Value)) : List (List Value) :=
  (List.range (longest rows)).map fun j => rows.map fun row => cell row j

/-- The columns of records, by key. -/
def columnsOfRecords (rows : List (Keyed Value)) : Keyed (List Value) :=
  (allKeys (rows.map .object)).map fun key => (key, rows.map fun row => field row key)

/-- The records of columns. -/
def recordsOfColumns (columns : Keyed (List Value)) : List (Keyed Value) :=
  (List.range (longest (columns.map Prod.snd))).map fun i => columns.map fun c => (c.1, cell c.2 i)

theorem pivot_ofGrid (rows : List (List Value)) : (ofGrid rows).pivot = .ok (ofGrid (columnsOfGrid rows)) := by
  have arrays : (rows.map Value.array).all isArray = true := by simp [isArray]
  have column : column (rows.map .array) = fun j => .array (rows.map fun row => cell row j) := by
    funext j
    rw [Value.column, List.map_map]
    rfl
  rw [ofGrid, pivot, if_pos arrays, width_grid, column, ofGrid, columnsOfGrid, List.map_map]
  rfl

theorem pivot_ofRecords {rows : List (Keyed Value)} (occupied : rows ≠ []) :
    (ofRecords rows).pivot = .ok (ofColumns (columnsOfRecords rows)) := by
  have mixed : ¬ (rows.map Value.object).all isArray = true := by
    obtain ⟨row, rest, rfl⟩ := List.exists_cons_of_ne_nil occupied
    simp [isArray]
  have objects : (rows.map Value.object).all isObject = true := by simp [isObject]
  have column : columnOf (rows.map .object) = fun key => .array (rows.map fun row => field row key) := by
    funext key
    rw [columnOf, List.map_map]
    rfl
  rw [ofRecords, pivot, if_neg mixed, if_pos objects, column, ofColumns, columnsOfRecords, List.map_map]
  rfl

theorem pivot_ofColumns (columns : Keyed (List Value)) :
    (ofColumns columns).pivot = .ok (ofRecords (recordsOfColumns columns)) := by
  have arrays : (columns.map fun c => (c.1, Value.array c.2)).find? (fun c => !c.2.isArray) = none := by
    simp [isArray]
  have height : width ((columns.map fun c => (c.1, Value.array c.2)).map Prod.snd) =
      longest (columns.map Prod.snd) := by
    rw [← width_grid, List.map_map, List.map_map]
    rfl
  have row : rowOf (columns.map fun c => (c.1, .array c.2)) = fun i =>
      .object (columns.map fun c => (c.1, cell c.2 i)) := by
    funext i
    rw [rowOf, List.map_map]
    rfl
  rw [ofColumns, pivot, arrays]
  show Except.ok _ = _
  rw [height, row, ofRecords, recordsOfColumns, List.map_map]
  rfl

theorem cell_map {α : Type} {rows : List α} {i : Nat} {row : α} (here : rows[i]? = some row) (f : α → Value) :
    cell (rows.map f) i = f row := by
  rw [cell, List.getElem?_map, here]
  rfl

theorem transposes_grid (rows : List (List Value)) : Transposes (ofGrid rows) (ofGrid (columnsOfGrid rows)) := by
  refine .grid (by simpa [columnsOfGrid] using longest_spec rows) (by simp [columnsOfGrid])
    fun i row here j column there => ?_
  obtain ⟨k, inside, rfl⟩ := Option.map_eq_some_iff.1 (List.getElem?_map .. ▸ there)
  obtain ⟨lt, rfl⟩ := List.getElem?_eq_some_iff.1 inside
  rw [List.getElem?_map, here, List.getElem_range]
  rfl

/-- Pivoted twice, a grid with a cell has rows as long as the longest one. -/
theorem fills_grid {rows : List (List Value)} (occupied : ∃ row ∈ rows, row ≠ []) :
    (ofGrid (columnsOfGrid rows)).pivot = .ok (ofGrid (rows.map (List.rightpad (longest rows) .null))) := by
  have height : longest (columnsOfGrid rows) = rows.length :=
    longest_of_forall (by simpa [columnsOfGrid] using longest_ne_zero occupied) (by simp [columnsOfGrid])
  rw [pivot_ofGrid, columnsOfGrid, height]
  refine congrArg (fun rows => Except.ok (ofGrid rows)) (map_range_length fun i row here => ?_)
  rw [columnsOfGrid, List.map_map, ← map_range_cell ((longest_spec rows).le row (List.mem_of_getElem? here))]
  exact List.map_congr_left fun j _ => cell_map here fun row => cell row j

/-! ## Keys -/

theorem ascending_allKeys (rows : List Value) : (allKeys rows).Pairwise (· < ·) :=
  List.pairwise_map.2 (Keyed.sorted_ofList _)

theorem mem_allKeys {rows : List (Keyed Value)} {key : String} :
    key ∈ allKeys (rows.map .object) ↔ ∃ row ∈ rows, key ∈ row.keys := by
  rw [allKeys, Keyed.mem_keys_ofList, Keyed.keys]
  simp [List.mem_flatMap, members, asObject?, Keyed.keys]

theorem transposes_records {rows : List (Keyed Value)} (occupied : rows ≠ []) :
    Transposes (ofRecords rows) (ofColumns (columnsOfRecords rows)) := by
  refine .records occupied (Keyed.sorted_map_keys (ascending_allKeys _) _) (fun key => ?_)
    (by simp [columnsOfRecords]) ?_
  · rw [← mem_allKeys, columnsOfRecords, Keyed.keys, List.map_map, Function.comp_def, List.map_id']
  · intro i row here column member
    obtain ⟨key, -, rfl⟩ := List.mem_map.1 member
    rw [List.getElem?_map, here]
    rfl

/-- A record at all keys of the table, missing ones being null. -/
theorem map_field_eq_fillKeys {rows : List (Keyed Value)} {row : Keyed Value} (member : row ∈ rows)
    (sorted : row.Sorted) : ((allKeys (rows.map .object)).map fun key => (key, field row key)) =
      fillKeys (rows.flatMap Keyed.keys) row := by
  refine (Keyed.sorted_map_keys (ascending_allKeys _) _).ext (Keyed.sorted_ofList _) fun key => ?_
  have own : Keyed.get? key row.reverse = row.get? key := by
    rw [← Keyed.get?_ofList, sorted.ofList_eq]
  have known : key ∈ (rows.flatMap Keyed.keys).reverse ↔ key ∈ allKeys (rows.map .object) := by
    rw [List.mem_reverse, List.mem_flatMap, mem_allKeys]
  rw [Keyed.get?_map_keys, fillKeys, Keyed.get?_ofList, List.reverse_append, Keyed.get?_append, own, ← List.map_reverse,
    Keyed.get?_map_keys, field]
  simp only [known]
  cases found : row.get? key with
  | none => rfl
  | some v =>
      have inside : key ∈ allKeys (rows.map .object) :=
        mem_allKeys.2 ⟨row, member, List.mem_map.2 ⟨_, Keyed.mem_of_get? found, rfl⟩⟩
      rw [if_pos inside]
      rfl

/-- Pivoted twice, records with a member have all keys. -/
theorem fills_records {rows : List (Keyed Value)} (sorted : ∀ row ∈ rows, row.Sorted)
    (occupied : ∃ row ∈ rows, row ≠ []) :
    (ofColumns (columnsOfRecords rows)).pivot =
      .ok (ofRecords (rows.map (fillKeys (rows.flatMap Keyed.keys)))) := by
  obtain ⟨row, member, some⟩ := occupied
  have keys : allKeys (rows.map .object) ≠ [] := by
    obtain ⟨entry, inside⟩ := List.exists_mem_of_ne_nil row some
    exact List.ne_nil_of_mem (mem_allKeys.2 ⟨row, member, List.mem_map_of_mem inside⟩)
  have height : longest ((columnsOfRecords rows).map Prod.snd) = rows.length :=
    longest_of_forall (by simpa [columnsOfRecords] using keys) (by simp [columnsOfRecords])
  rw [pivot_ofColumns, recordsOfColumns, height]
  refine congrArg (fun rows => Except.ok (ofRecords rows)) (map_range_length fun i row here => ?_)
  have inside := List.mem_of_getElem? here
  rw [columnsOfRecords, List.map_map, ← map_field_eq_fillKeys inside (sorted row inside)]
  exact List.map_congr_left fun key _ => Prod.ext rfl (cell_map here fun row => field row key)

section

variable {columns : Keyed (List Value)} (sorted : columns.Sorted)

include sorted

theorem field_row {i : Nat} {column : String × List Value} (member : column ∈ columns) :
    Keyed.get? column.1 (columns.map fun c => (c.1, cell c.2 i)) = some (cell column.2 i) :=
  (sorted.map_values (cell · i)).get?_eq_some_iff.2 (List.mem_map_of_mem member)

theorem transposes_columns : Transposes (ofColumns columns) (ofRecords (recordsOfColumns columns)) := by
  refine .columns (by simpa [recordsOfColumns] using longest_spec (columns.map Prod.snd)) (fun row member => ?_) ?_
  · obtain ⟨i, -, rfl⟩ := List.mem_map.1 member
    rw [Keyed.keys, List.map_map]
    rfl
  · intro i row here column member
    obtain ⟨k, inside, rfl⟩ := Option.map_eq_some_iff.1 (List.getElem?_map .. ▸ here)
    obtain ⟨lt, rfl⟩ := List.getElem?_eq_some_iff.1 inside
    rw [List.getElem_range]
    exact field_row sorted member

/-- Pivoted twice, columns with a cell are as long as the longest one. -/
theorem fills_columns (occupied : ∃ column ∈ columns, column.2 ≠ []) :
    (ofRecords (recordsOfColumns columns)).pivot =
      .ok (ofColumns (columns.map fun c => (c.1, c.2.rightpad (longest (columns.map Prod.snd)) .null))) := by
  obtain ⟨column, member, some⟩ := occupied
  have le : ∀ c ∈ columns, c.2.length ≤ longest (columns.map Prod.snd) := fun c inside =>
    (longest_spec _).le c.2 (List.mem_map_of_mem inside)
  have high : longest (columns.map Prod.snd) ≠ 0 :=
    longest_ne_zero ⟨column.2, List.mem_map_of_mem member, some⟩
  have keys : allKeys ((recordsOfColumns columns).map .object) = columns.keys := by
    refine Keyed.eq_of_ascending id (ascending_allKeys _) (List.pairwise_map.2 sorted) fun key => ?_
    rw [mem_allKeys]
    constructor
    · rintro ⟨row, inside, known⟩
      obtain ⟨i, -, rfl⟩ := List.mem_map.1 inside
      rwa [Keyed.keys, List.map_map] at known
    · intro known
      refine ⟨_, List.mem_map_of_mem (List.mem_range.2 (Nat.pos_of_ne_zero high)), ?_⟩
      rwa [Keyed.keys, List.map_map]
  rw [pivot_ofRecords (by simpa [recordsOfColumns] using high), columnsOfRecords, keys, Keyed.keys, List.map_map]
  refine congrArg (fun columns => Except.ok (ofColumns columns)) (List.map_congr_left fun c inside => Prod.ext rfl ?_)
  rw [← map_range_cell (le c inside), Function.comp_apply, recordsOfColumns, List.map_map]
  refine List.map_congr_left fun i _ => ?_
  rw [Function.comp_apply, field, field_row sorted inside]
  rfl

end

/-! ## All values -/

theorem sorted_of_isMap {rows : List (Keyed Value)} (maps : (ofRecords rows).IsMap) : ∀ row ∈ rows, row.Sorted := by
  rw [ofRecords, IsMap] at maps
  induction rows with
  | nil => exact List.forall_mem_nil _
  | cons row rest ih => exact List.forall_mem_cons.2 ⟨maps.1.1, ih maps.2⟩

/-- A table is transposed, and a table with a cell is filled when it is pivoted twice. -/
theorem pivot_of_pivotable {v : Value} (maps : v.IsMap) (pivotable : ¬ v.Unpivotable) :
    ∃ t, v.pivot = .ok t ∧ v.Transposes t ∧ (v.HasCell → ∃ filled, t.pivot = .ok filled ∧ v.Filled filled) := by
  rcases exists_form pivotable with ⟨rows, rfl⟩ | ⟨rows, occupied, rfl⟩ | ⟨columns, rfl⟩
  · refine ⟨_, pivot_ofGrid rows, transposes_grid rows, fun hasCell => ?_⟩
    have inside : ∃ row ∈ rows, row ≠ [] := by
      simpa [ofGrid, HasCell, items, members, asArray?, asObject?] using hasCell
    exact ⟨_, fills_grid inside, .grid (longest_spec rows)⟩
  · refine ⟨_, pivot_ofRecords occupied, transposes_records occupied, fun hasCell => ?_⟩
    have inside : ∃ row ∈ rows, row ≠ [] := by
      simpa [ofRecords, HasCell, items, members, asArray?, asObject?] using hasCell
    exact ⟨_, fills_records (sorted_of_isMap maps) inside, .records occupied⟩
  · have sorted : columns.Sorted := by
      have own := maps.1
      rwa [Keyed.Sorted, List.pairwise_map] at own
    refine ⟨_, pivot_ofColumns columns, transposes_columns sorted, fun hasCell => ?_⟩
    have inside : ∃ column ∈ columns, column.2 ≠ [] := by
      simpa [ofColumns, HasCell, items, asArray?] using hasCell
    exact ⟨_, fills_columns sorted inside, .columns (longest_spec _)⟩

/-- Pivoting fails on the values that are no tables, and on no others. A table it transposes, and
pivoting what comes of a table with at least one row and one column gives that table again, with
nulls for its missing cells. -/
theorem pivot_transposes {v : Value} (maps : v.IsMap) :
    ((∃ fault, v.pivot = .error fault) ↔ v.Unpivotable) ∧
    ∀ t, v.pivot = .ok t →
      v.Transposes t ∧ (v.HasCell → ∃ filled, t.pivot = .ok filled ∧ v.Filled filled) := by
  by_cases unpivotable : v.Unpivotable
  · obtain ⟨found, fails⟩ := pivot_unpivotable unpivotable
    refine ⟨iff_of_true ⟨_, fails⟩ unpivotable, fun t pivoted => ?_⟩
    cases fails.symm.trans pivoted
  · obtain ⟨t, pivoted, laws⟩ := pivot_of_pivotable maps unpivotable
    refine ⟨iff_of_false ?_ unpivotable, fun t' pivoted' => ?_⟩
    · rintro ⟨fault, fails⟩
      cases fails.symm.trans pivoted
    · cases pivoted.symm.trans pivoted'
      exact laws

/-- Two records with different keys. -/
def visits : Value := ofRecords [[("at", .int 3), ("by", .null)], [("by", .string "foot"), ("to", .array [])]]

/-- Their keys become columns with nulls, and these the two records again, with all three keys. -/
theorem pivot_transposes_visits : visits.IsMap ∧ visits.HasCell ∧ ∃ t filled,
    visits.pivot = .ok t ∧ visits.Transposes t ∧ t.pivot = .ok filled ∧ visits.Filled filled ∧
    t = .object [("at", .array [.int 3, .null]), ("by", .array [.null, .string "foot"]),
      ("to", .array [.null, .array []])] ∧
    filled = .array [.object [("at", .int 3), ("by", .null), ("to", .null)],
      .object [("at", .null), ("by", .string "foot"), ("to", .array [])]] := by
  have maps : visits.IsMap :=
    ⟨⟨by decide, trivial, trivial, trivial⟩, ⟨by decide, trivial, trivial, trivial⟩, trivial⟩
  have hasCell : visits.HasCell := ⟨_, List.mem_cons_self, Or.inr (List.cons_ne_nil _ _)⟩
  obtain ⟨transposes, fills⟩ := (pivot_transposes maps).2 _ rfl
  obtain ⟨filled, again, padded⟩ := fills hasCell
  exact ⟨maps, hasCell, _, filled, rfl, transposes, again, padded, rfl, (Except.ok.inj again).symm⟩

end PegFlow.Value
