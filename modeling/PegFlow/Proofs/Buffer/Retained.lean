/-
# PegFlow.Proofs.Buffer.Retained -- what an append lets go

An append lets a chunk go when the chunks behind it, the new one among them, hold as much
as is to be kept. So an offset stays readable exactly when less than that lies behind its
chunk after the append (`Buffer.Shows.start_le_iff`). How much lay behind the offset
before does not decide: the size of the new chunk counts.
-/
import PegFlow.Proofs.Buffer.Flat

namespace PegFlow

set_option autoImplicit false

namespace Chunk

theorem joined_size_mono {cs ds : List Chunk} (suffix : cs <:+ ds) :
    (joined cs).utf8ByteSize ≤ (joined ds).utf8ByteSize := by
  obtain ⟨before, rfl⟩ := suffix
  rw [joined_append, String.utf8ByteSize_append]
  omega

end Chunk

namespace Buffer

/-- How many octets lie behind the chunk that holds an offset. -/
def behind (b : Buffer) (p : Nat) : Nat := (Chunk.joined (b.chunksAt p).tail).utf8ByteSize

variable {W start p : Nat} {evicted : Cursor} {cs : List Chunk} {new : Chunk}

theorem evict_cons {length : Nat} {c : Chunk} {rest : List Chunk} (more : rest ≠ []) :
    evict W length start evicted (c :: rest) =
      if length - start - c.text.utf8ByteSize < W then (start, evicted, c :: rest)
      else evict W length c.stop (evicted.advance (Text.octets c.text)) rest := by
  cases rest with
  | nil => exact absurd rfl more
  | cons d ds => rw [evict]

/-- To let go of chunks never moves the window back. -/
theorem le_evict (W : Nat) (evicted : Cursor) (length : Nat) {chunks : List Chunk} (follow : Chunk.Follow start chunks) :
    start ≤ (evict W length start evicted chunks).1 := by
  obtain ⟨gone, -, here, -⟩ := evict_leaves W length start evicted chunks follow
  omega

/-- The newest chunk always stays. -/
theorem evict_le_new (W : Nat) (evicted : Cursor) (length : Nat) (follow : Chunk.Follow start (cs ++ [new])) :
    (evict W length start evicted (cs ++ [new])).1 ≤ new.offset := by
  induction cs generalizing start evicted with
  | nil => exact Nat.le_of_eq follow.1.symm
  | cons c rest ih =>
      obtain ⟨at_, filled, tail⟩ := follow
      change Chunk.Follow c.stop (rest ++ [new]) at tail
      have stop := Chunk.stop_eq at_
      have forward := le_evict W evicted length tail
      have later := ih evicted tail
      rw [List.cons_append, evict_cons (by simp)]
      split
      · show start ≤ new.offset
        omega
      · exact ih _ tail

/-- The chunk that holds an offset stays exactly when less than `W` octets lie behind it.
The induction is on the chunks that may go: each of them goes when those behind it hold
`W` octets, and then so it is with all before it. -/
theorem evict_le_iff (follow : Chunk.Follow start (cs ++ [new])) (low : start ≤ p)
    (high : p < new.offset) :
    (evict W (start + (Chunk.joined (cs ++ [new])).utf8ByteSize) start evicted (cs ++ [new])).1 ≤ p ↔
      (Chunk.joined ((cs.dropWhile fun c => c.stop ≤ p).tail ++ [new])).utf8ByteSize < W := by
  induction cs generalizing start evicted with
  | nil =>
      have : new.offset = start := follow.1
      omega
  | cons c rest ih =>
      obtain ⟨at_, filled, tail⟩ := follow
      change Chunk.Follow c.stop (rest ++ [new]) at tail
      have stop := Chunk.stop_eq at_
      have total : start + (Chunk.joined (c :: (rest ++ [new]))).utf8ByteSize =
          c.stop + (Chunk.joined (rest ++ [new])).utf8ByteSize := by
        rw [Chunk.joined_cons, String.utf8ByteSize_append, stop, Nat.add_assoc]
      have others : c.stop + (Chunk.joined (rest ++ [new])).utf8ByteSize - start - c.text.utf8ByteSize =
          (Chunk.joined (rest ++ [new])).utf8ByteSize := by omega
      rw [List.cons_append, total, evict_cons (by simp), others]
      by_cases before : c.stop ≤ p
      · rw [List.dropWhile_cons_of_pos (by simpa using before)]
        by_cases kept : (Chunk.joined (rest ++ [new])).utf8ByteSize < W
        · have suffix : (rest.dropWhile fun c => c.stop ≤ p).tail ++ [new] <:+ rest ++ [new] := by
            obtain ⟨gone, eq⟩ := (List.tail_suffix _).trans
              (List.dropWhile_suffix (l := rest) fun c => decide (c.stop ≤ p))
            refine ⟨gone, ?_⟩
            rw [← List.append_assoc, eq]
          have less := Chunk.joined_size_mono suffix
          rw [if_pos kept]
          exact iff_of_true low (by omega)
        · rw [if_neg kept]
          exact ih tail before
      · rw [List.dropWhile_cons_of_neg (by simpa using before), List.tail_cons]
        by_cases kept : (Chunk.joined (rest ++ [new])).utf8ByteSize < W
        · rw [if_pos kept]
          exact iff_of_true low kept
        · have gone := le_evict W (evicted.advance (Text.octets c.text))
            (c.stop + (Chunk.joined (rest ++ [new])).utf8ByteSize) tail
          rw [if_neg kept]
          exact iff_of_false (by omega) kept

/-- What an append does to the window. -/
theorem Shows.append_window {b b' : Buffer} {T text : String} (shows : b.Shows T)
    (appended : b.append text = .ok b') (filled : text ≠ "") :
    Chunk.Follow b.start (b.chunks ++ [⟨b.length, text⟩]) ∧
      b'.start = (evict b.minRetained
        (b.start + (Chunk.joined (b.chunks ++ [⟨b.length, text⟩])).utf8ByteSize) b.start b.evicted
        (b.chunks ++ [⟨b.length, text⟩])).1 := by
  have total : b.start + (Chunk.joined (b.chunks ++ [⟨b.length, text⟩])).utf8ByteSize =
      b.length + text.utf8ByteSize := by
    rw [Chunk.joined_concat, String.utf8ByteSize_append, ← Nat.add_assoc, shows.start_add]
  refine ⟨shows.follow_new filled, ?_⟩
  cases (append_filled (isOpen_of_append appended) filled).symm.trans appended
  rw [total]

/-- After an append an offset of the window is still inside it exactly when nothing came, when
it is where the new text begins, or when less than what is to be kept lies behind its chunk,
the new text included. -/
theorem Shows.start_le_iff {b b' : Buffer} {T text : String} (shows : b.Shows T)
    (appended : b.append text = .ok b') (low : b.start ≤ p) (high : p ≤ b.length) :
    b'.start ≤ p ↔ text = "" ∨ p = b.length ∨ b.behind p + text.utf8ByteSize < b.minRetained := by
  by_cases none : text = ""
  · subst none
    cases (append_nothing (isOpen_of_append appended)).symm.trans appended
    exact iff_of_true low (Or.inl rfl)
  · obtain ⟨follow, start⟩ := shows.append_window appended none
    rw [start]
    by_cases atEnd : p = b.length
    · subst atEnd
      exact iff_of_true (evict_le_new _ _ _ follow) (Or.inr (Or.inl rfl))
    · rw [evict_le_iff follow low (by simpa using Nat.lt_of_le_of_ne high atEnd), Chunk.joined_append,
        String.utf8ByteSize_append, Chunk.joined_cons, Chunk.joined_nil, String.append_empty]
      simp only [none, atEnd, false_or]
      exact Iff.rfl

end Buffer

end PegFlow
