/-
# PegFlow.Proofs.Buffer.Place -- lines and columns, and buffers that keep everything

The line and column of an offset of the window are those of the text, wherever the chunks
were cut (`Buffer.Shows.lineAndColumn_eq`). A buffer that may keep as much as the text is
long lets nothing go (`Buffer.Shows.append_start`).
-/
import PegFlow.Proofs.Buffer.Flat

namespace PegFlow

set_option autoImplicit false

open Text

theorem Chunk.Follow.advance {o : Nat} {chunks : List Chunk} (h : Follow o chunks) (p : Nat)
    (cursor : Cursor) :
    chunks.foldl (fun cursor c => cursor.advance ((octets c.text).take (p - c.offset))) cursor =
      cursor.advance ((octets (joined chunks)).take (p - o)) := by
  induction chunks generalizing o cursor with
  | nil => simp [octets, Cursor.advance]
  | cons c rest ih =>
      obtain ⟨at_, -, tail⟩ := h
      have stop := stop_eq at_
      rw [List.foldl_cons, ih tail, ← Cursor.advance_append, joined_cons, octets_append,
        List.take_append, length_octets, at_, stop, Nat.sub_sub]

namespace Buffer

/-- The cursor of an offset of a text. -/
def cursorAt (T : String) (p : Nat) : Cursor := Cursor.start.advance ((octets T).take p)

theorem cursorAt_append {P : String} (more : String) {p : Nat} (le : p ≤ P.utf8ByteSize) :
    cursorAt (P ++ more) p = cursorAt P p := by
  rw [cursorAt, cursorAt, octets_append, List.take_append_of_le_length]
  rwa [length_octets]

/-- The line and column of an offset of the window are those of the text. -/
theorem Shows.lineAndColumn_eq {b : Buffer} {T : String} (shows : b.Shows T) {p : Nat}
    (low : b.start ≤ p) : b.lineAndColumn p = .ok ((cursorAt T p).lines + 1, (cursorAt T p).column + 1) := by
  obtain ⟨gone, hT, size, counted⟩ := shows.kept
  have high := shows.start_le
  have within : (octets T).take p = (octets T).take (min p b.length) := by
    rw [shows.length_eq, ← length_octets T, ← List.take_take, List.take_length]
  have cursor : b.chunks.foldl (fun cursor c =>
      cursor.advance ((octets c.text).take (min p b.length - c.offset))) b.evicted = cursorAt T p := by
    rw [shows.follow.advance, counted, ← Cursor.advance_append, cursorAt, within, hT, octets_append,
      List.take_append, length_octets, size, List.take_of_length_le (l := octets gone)]
    rw [length_octets, size, shows.length_eq]
    omega
  rw [lineAndColumn, checkRetained_of_le low]
  exact congrArg (fun c : Cursor => Except.ok (c.lines + 1, c.column + 1)) cursor

theorem evict_start {minRetained length start : Nat} {evicted : Cursor} {chunks : List Chunk}
    (follow : Chunk.Follow start chunks) (positive : 0 < length) (le : length ≤ minRetained) :
    (evict minRetained length start evicted chunks).1 = start := by
  match chunks, follow with
  | [], _ => rfl
  | [c], _ => rfl
  | c :: d :: rest, ⟨_, filled, _⟩ =>
      have size := Chunk.size_pos filled
      rw [evict, if_pos (by omega)]

/-- A buffer that may keep as much as there is lets nothing go. -/
theorem Shows.append_start {b b' : Buffer} {T text : String} (shows : b.Shows T)
    (appended : b.append text = .ok b') (le : (T ++ text).utf8ByteSize ≤ b.minRetained) :
    b'.start = b.start := by
  have isOpen := isOpen_of_append appended
  have length := shows.length_eq
  rw [String.utf8ByteSize_append] at le
  by_cases none : text = ""
  · subst none
    cases (append_nothing isOpen).symm.trans appended
    rfl
  · have size := Chunk.size_pos (c := ⟨b.length, text⟩) none
    cases (append_filled isOpen none).symm.trans appended
    exact evict_start (shows.follow_new none) (Nat.add_pos_right _ size) (by omega)

end Buffer

end PegFlow
