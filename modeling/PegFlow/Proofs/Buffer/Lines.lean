/-
# PegFlow.Proofs.Buffer.Lines -- the lines of a buffer are those of its text

Where an error is shown, a buffer gives the line and column of an offset, and the line
itself. Both are those of the whole text, however it was cut into pieces and whatever of it
was let go; only a line whose beginning was let go is not shown (`Buffer.lines_as_flat`).

The buffer does not keep where its first line opened. It takes the line to have opened in
text that is gone when some character of it has gone by, and that is so exactly then
(`Buffer.Shows.lineText_eq`, by the two ways in which a line may lie across the beginning of the
window, `LineAt.behind` and `LineAt.across`).
-/
import PegFlow.Proofs.Buffer.Reads
import PegFlow.Proofs.Text.Line
import Mathlib.Data.List.TakeWhile

namespace PegFlow

set_option autoImplicit false

open Text

/-- The line and column of an offset of a whole text, from one: the line feeds in front of it,
and the characters that begin between the last of these and the offset. -/
def Flat.lineAndColumn (T : String) (p : Nat) : Nat × Nat :=
  let before := (octets T).take p
  (before.count newline + 1,
    (before.reverse.takeWhile (· ≠ newline)).countP (fun b => !isContinuation b) + 1)

theorem take_octets_min (T : String) (p : Nat) :
    (octets T).take (min p T.utf8ByteSize) = (octets T).take p := by
  rw [← List.take_take, ← length_octets, List.take_length]

theorem SourcePosition.ofOffset_eq_flat (T : String) (p : Nat) :
    ofOffset T p = ⟨min p T.utf8ByteSize, (Flat.lineAndColumn T p).1, (Flat.lineAndColumn T p).2⟩ := by
  simp only [ofOffset, take_octets_min, Cursor.advance_eq_counts, Flat.lineAndColumn]

/-- `shown` is `line` without the carriage returns at its end. -/
def Text.Trims (line shown : String) : Prop :=
  ∃ n, line.toList = shown.toList ++ List.replicate n '\r' ∧ shown.toList.getLast? ≠ some '\r'

namespace Buffer

theorem trims_trimReturns (line : String) : Trims line (trimReturns line) := by
  refine ⟨(line.toList.reverse.takeWhile (· = '\r')).length, ?_, ?_⟩
  · have returns : line.toList.reverse.takeWhile (· = '\r') =
        List.replicate (line.toList.reverse.takeWhile (· = '\r')).length '\r' :=
      List.eq_replicate_iff.2 ⟨rfl, fun c mem => by simpa using List.mem_takeWhile_imp mem⟩
    have whole := congrArg List.reverse
      (List.takeWhile_append_dropWhile (p := (· = '\r')) (l := line.toList.reverse))
    rw [List.reverse_append, List.reverse_reverse, returns, List.reverse_replicate] at whole
    rw [trimReturns, String.toList_ofList]
    exact whole.symm
  · rw [trimReturns, String.toList_ofList, List.getLast?_reverse]
    intro last
    have differs := List.head?_dropWhile_not (· = '\r') line.toList.reverse
    rw [last] at differs
    simp at differs

variable {b : Buffer} {T : String} {p : Nat}

/-- The line that is shown is that of the text which is kept. It is not shown when it opens
where that text begins and has gone by there. -/
theorem lineText_of_lineAt {before line : String} (low : b.start ≤ min p b.length)
    (at_ : LineAt b.retained (min p b.length - b.start) before line) :
    b.lineText p =
      if before = "" ∧ 0 < b.evicted.column then none else some (trimReturns line) := by
  have back := congrArg List.length at_.back
  have on := congrArg List.length at_.on
  obtain ⟨⟨after, text, -⟩, -, -, first, last⟩ := at_
  rw [List.length_reverse, List.length_take, length_octets] at back
  rw [List.length_drop, length_octets] at on
  have slice := slice?_cut before line after
  rw [← text] at slice
  simp only [lineText, if_neg (Nat.not_lt.2 low), back, on]
  generalize min p b.length - b.start = i at first last ⊢
  have opens : min (i - before.utf8ByteSize) line.utf8ByteSize = i ↔ before = "" := by
    rw [← String.utf8ByteSize_eq_zero_iff]
    omega
  have start : i - min (i - before.utf8ByteSize) line.utf8ByteSize = before.utf8ByteSize := by omega
  have stop : i + (line.utf8ByteSize - (i - before.utf8ByteSize)) =
      before.utf8ByteSize + line.utf8ByteSize := by omega
  rw [start, stop, slice]
  simp only [opens, Option.map_some]

/-- The line that is shown is that of the whole text, unless its beginning was let go. -/
theorem Shows.lineText_eq (shows : b.Shows T) (low : b.start ≤ p) {before line : String}
    (at_ : LineAt T (min p T.utf8ByteSize) before line) :
    b.lineText p = if b.start ≤ before.utf8ByteSize then some (trimReturns line) else none := by
  obtain ⟨gone, hT, size, counted⟩ := shows.kept
  have opens := at_.opens
  have high := shows.start_le
  have unbroken := at_.unbroken
  rw [← shows.length_eq] at at_ high
  rw [hT] at at_
  by_cases whole : b.start ≤ before.utf8ByteSize
  · obtain ⟨m, rfl, here⟩ := at_.behind (by omega)
    rw [size] at here
    rw [if_pos whole, lineText_of_lineAt (by omega) here, if_neg]
    rintro ⟨rfl, gone_by⟩
    rw [String.append_empty] at opens
    rw [counted, Cursor.column_of_opens opens] at gone_by
    exact Nat.lt_irrefl 0 gone_by
  · obtain ⟨m, k, rfl, some_, rfl, here⟩ := at_.across (by omega) (by omega)
    rw [size] at here
    rw [String.toList_append, List.mem_append, not_or] at unbroken
    rw [if_neg whole, lineText_of_lineAt (by omega) here, if_pos]
    exact ⟨rfl, by rw [counted]; exact Cursor.column_pos opens unbroken.1 some_⟩

theorem lineAndColumn_of_lt (lt : p < b.start) : b.lineAndColumn p = .error (.inputFreed p b.start) := by
  rw [lineAndColumn, checkRetained_of_lt lt]
  rfl

theorem lineText_of_lt (lt : p < b.start) : b.lineText p = none := by
  rw [lineText, if_pos (Nat.lt_of_le_of_lt (Nat.min_le_left _ _) lt)]

/-- The line and column of an offset, and the line around it, as they are in the whole text;
an offset past the end counts as the end. The line is shown if its beginning is kept. -/
structure ReadsLine (b : Buffer) (T : String) (p : Nat) : Prop where
  position : b.lineAndColumn p = .ok ((SourcePosition.ofOffset T p).line, (SourcePosition.ofOffset T p).column)
  counted : b.lineAndColumn p = .ok (Flat.lineAndColumn T p)
  found : ∃ before line, LineAt T (min p T.utf8ByteSize) before line
  shown : ∀ before line, LineAt T (min p T.utf8ByteSize) before line → ∃ shown, Trims line shown ∧
    b.lineText p = if b.start ≤ before.utf8ByteSize then some shown else none

theorem Shows.readsLine (shows : b.Shows T) (low : b.start ≤ p) : b.ReadsLine T p := by
  have counted : b.lineAndColumn p = .ok (Flat.lineAndColumn T p) := by
    rw [shows.lineAndColumn_eq low, cursorAt, Cursor.advance_eq_counts]
    rfl
  refine ⟨?_, counted, exists_lineAt (Nat.min_le_right _ _), fun before line at_ => ?_⟩
  · rw [counted, SourcePosition.ofOffset_eq_flat]
  · exact ⟨trimReturns line, trims_trimReturns line, shows.lineText_eq low at_⟩

/-- However a text was cut into pieces, and whatever of them was let go, the buffer that was
filled with them knows the lines of the whole text from its window on, and no others. -/
theorem lines_as_flat (minRetained : Nat) (pieces : List String) (ended : Bool) :
    ∃ b, (empty minRetained).fill pieces ended = .ok b ∧ ∀ p,
      (p < b.start → b.lineAndColumn p = .error (.inputFreed p b.start) ∧ b.lineText p = none) ∧
      (b.start ≤ p → b.ReadsLine (String.join pieces) p) := by
  obtain ⟨b, filled, -, shows⟩ := fill_empty minRetained pieces ended
  refine ⟨b, filled, fun p => ⟨fun below => ?_, fun low => shows.readsLine low⟩⟩
  exact ⟨lineAndColumn_of_lt below, lineText_of_lt below⟩

end Buffer

end PegFlow
