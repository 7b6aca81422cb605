/-
# PegFlow.Proofs.Buffer.Kept -- how much a buffer keeps

A buffer keeps whole chunks: as much as it was told to or all there is, with the newest
chunk among them, and no chunk that it could do without. `Buffer.Windowed` says this of the
sizes. Letting go of chunks establishes it whatever was kept before (`evict_windowed`), so
an append keeps it (`Windowed.append`), and with it all that `Buffer.Keeps` says of a buffer
and the pieces it was filled with (`Keeps.append`, `Buffer.keeps_window`).
-/
import PegFlow.Proofs.Buffer.Reads
import PegFlow.Proofs.Buffer.Retained

namespace PegFlow

set_option autoImplicit false

namespace Buffer

/-! ## Sizes -/

/-- The chunks hold `W` octets or all that there are, and all of them but the oldest would
hold less than `W`. -/
structure Windowed (b : Buffer) (W : Nat) : Prop where
  told : b.minRetained = W
  enough : min b.length W ≤ (Chunk.joined b.chunks).utf8ByteSize
  needed : ∀ oldest others, b.chunks = oldest :: others → others ≠ [] →
    (Chunk.joined others).utf8ByteSize < W

theorem windowed_empty (W : Nat) : (empty W).Windowed W := ⟨rfl, by simp [empty], by simp [empty]⟩

section

variable {W length start : Nat} {chunks : List Chunk}

/-- Chunks are let go until the next one is needed. The induction is on the chunks that go:
each of them leaves `W` octets behind it. -/
theorem evict_windowed (evicted : Cursor) (follow : Chunk.Follow start chunks)
    (ends : start + (Chunk.joined chunks).utf8ByteSize = length)
    (enough : min length W ≤ (Chunk.joined chunks).utf8ByteSize) :
    min length W ≤ (Chunk.joined (evict W length start evicted chunks).2.2).utf8ByteSize ∧
      ∀ oldest others, (evict W length start evicted chunks).2.2 = oldest :: others → others ≠ [] →
        (Chunk.joined others).utf8ByteSize < W := by
  fun_induction evict W length start evicted chunks with
  | case1 => exact ⟨enough, by simp⟩
  | case2 => exact ⟨enough, by simp⟩
  | case3 start evicted c d rest few =>
      refine ⟨enough, fun oldest others eq _ => ?_⟩
      obtain ⟨rfl, rfl⟩ := List.cons.inj eq
      rw [Chunk.joined_cons c, String.utf8ByteSize_append] at ends
      omega
  | case4 start evicted c d rest many ih =>
      obtain ⟨at_, -, tail⟩ := follow
      have stop := Chunk.stop_eq at_
      rw [Chunk.joined_cons c, String.utf8ByteSize_append] at ends
      exact ih tail (by omega) (by omega)

/-- The newest chunk is never let go. -/
theorem getLast?_evict {evicted : Cursor} :
    (evict W length start evicted chunks).2.2.getLast? = chunks.getLast? := by
  fun_induction evict W length start evicted chunks with
  | case4 start evicted c d rest _ ih => rw [ih, List.getLast?_cons_cons]
  | _ => rfl

end

section

variable {b b' : Buffer} {W : Nat} {T text : String}

/-- An append leaves what is to be kept, and lets go of all else. -/
theorem Windowed.append (window : b.Windowed W) (shows : b.Shows T) (appended : b.append text = .ok b') :
    b'.Windowed W := by
  obtain ⟨rfl, enough, needed⟩ := window
  have isOpen := isOpen_of_append appended
  by_cases none : text = ""
  · subst none
    cases (append_nothing isOpen).symm.trans appended
    exact ⟨rfl, enough, needed⟩
  · have ends := shows.start_add
    cases (append_filled isOpen none).symm.trans appended
    have size : (Chunk.joined (b.chunks ++ [⟨b.length, text⟩])).utf8ByteSize =
        (Chunk.joined b.chunks).utf8ByteSize + text.utf8ByteSize := by
      rw [Chunk.joined_concat, String.utf8ByteSize_append]
    obtain ⟨enough, needed⟩ := evict_windowed (W := b.minRetained) b.evicted
      (shows.follow_new none) (by omega : _ = b.length + text.utf8ByteSize) (by omega)
    exact ⟨rfl, enough, needed⟩

/-- An append never moves the window back. -/
theorem Shows.start_le_append (shows : b.Shows T) (appended : b.append text = .ok b') :
    b.start ≤ b'.start := by
  have isOpen := isOpen_of_append appended
  by_cases none : text = ""
  · subst none
    cases (append_nothing isOpen).symm.trans appended
    exact Nat.le_refl _
  · obtain ⟨follow, start⟩ := shows.append_window appended none
    rw [start]
    exact le_evict _ _ _ follow

end

/-! ## Runs of appends -/

/-- What a buffer keeps of the pieces that it was filled with: chunks that follow one another
from `b.start` up to the end of the text, as many as are needed, the last piece with any text
among them as it came. -/
structure Keeps (b : Buffer) (W : Nat) (pieces : List String) : Prop where
  shows : b.Shows (String.join pieces)
  ends : b.start + (Chunk.joined b.chunks).utf8ByteSize = b.length
  window : b.Windowed W
  newest : ∀ before text blanks, pieces = before ++ text :: blanks → text ≠ "" → (∀ s ∈ blanks, s = "") →
    b.chunks.getLast? = some ⟨(String.join before).utf8ByteSize, text⟩

theorem keeps_empty (W : Nat) : (empty W).Keeps W [] :=
  ⟨shows_empty W, rfl, windowed_empty W, fun before text blanks eq => by simp at eq⟩

section

variable {b b' : Buffer} {W : Nat} {pieces : List String} {text : String}

theorem Keeps.close (keeps : b.Keeps W pieces) : b.close.Keeps W pieces :=
  ⟨keeps.shows.close, keeps.ends, ⟨keeps.window.told, keeps.window.enough, keeps.window.needed⟩, keeps.newest⟩

/-- The newest piece with any text, after an append: the new piece, or the one before when
the new piece has none. -/
theorem Keeps.newest_append (keeps : b.Keeps W pieces) (appended : b.append text = .ok b')
    {before blanks : List String} {newest : String} (eq : pieces ++ [text] = before ++ newest :: blanks)
    (filled : newest ≠ "") (blank : ∀ s ∈ blanks, s = "") :
    b'.chunks.getLast? = some ⟨(String.join before).utf8ByteSize, newest⟩ := by
  have isOpen := isOpen_of_append appended
  rcases List.eq_nil_or_concat blanks with rfl | ⟨blanks, s, rfl⟩
  · obtain ⟨rfl, rfl⟩ := List.append_singleton_inj.1 eq
    cases (append_filled isOpen filled).symm.trans appended
    rw [getLast?_evict, List.getLast?_append, List.getLast?_singleton, Option.some_or, keeps.shows.length_eq]
  · rw [List.concat_eq_append] at eq blank
    rw [← List.cons_append, ← List.append_assoc] at eq
    obtain ⟨rfl, rfl⟩ := List.append_singleton_inj.1 eq
    have none : text = "" := blank text (by simp)
    subst none
    cases (append_nothing isOpen).symm.trans appended
    exact keeps.newest before newest blanks rfl filled fun s mem => blank s (by simp [mem])

/-- One append: what is kept before is kept after. -/
theorem Keeps.append (keeps : b.Keeps W pieces) (appended : b.append text = .ok b') :
    b'.Keeps W (pieces ++ [text]) := by
  have isOpen := isOpen_of_append appended
  obtain ⟨_, appended', -, -, grown⟩ := append_of_open isOpen text
  cases appended'.symm.trans appended
  have shows := grown _ keeps.shows
  have join : String.join (pieces ++ [text]) = String.join pieces ++ text := by
    rw [String.join_append, String.join_cons, String.join_nil, String.append_empty]
  rw [← join] at shows
  exact ⟨shows, shows.start_add, keeps.window.append keeps.shows appended,
    fun _ _ _ eq filled blank => keeps.newest_append appended eq filled blank⟩

/-- Appends one after the other, by induction on the pieces that come. -/
theorem Keeps.foldlM (keeps : b.Keeps W pieces) (isOpen : b.closed = false) (later : List String) :
    ∃ b', later.foldlM Buffer.append b = .ok b' ∧ b'.closed = false ∧ b.start ≤ b'.start ∧
      b'.Keeps W (pieces ++ later) := by
  induction later generalizing b pieces with
  | nil => exact ⟨b, rfl, isOpen, Nat.le_refl _, by rwa [List.append_nil]⟩
  | cons text later ih =>
      obtain ⟨next, appended, stillOpen, -⟩ := append_of_open isOpen text
      obtain ⟨b', filled, final, forward, kept⟩ := ih (keeps.append appended) stillOpen
      refine ⟨b', ?_, final, Nat.le_trans (keeps.shows.start_le_append appended) forward, ?_⟩
      · rw [List.foldlM_cons, appended]
        exact filled
      · rwa [List.append_assoc, List.singleton_append] at kept

end

/-- Whatever comes in pieces and however much is to be kept: the chunks that a buffer keeps
follow one another up to the end of the text, they are as many as are needed with the newest
one among them, and where they begin never moves back. -/
theorem keeps_window (W : Nat) (earlier later : List String) (ended : Bool) :
    ∃ b b', (empty W).fill earlier false = .ok b ∧ (empty W).fill (earlier ++ later) ended = .ok b' ∧
      b.start ≤ b'.start ∧ b'.Keeps W (earlier ++ later) := by
  obtain ⟨b, filled, isOpen, -, keeps⟩ := (keeps_empty W).foldlM rfl earlier
  obtain ⟨b', filled', -, forward, keeps'⟩ := keeps.foldlM isOpen later
  have all : (earlier ++ later).foldlM append (empty W) = .ok b' := by
    rw [List.foldlM_append, filled]
    exact filled'
  rw [List.nil_append] at keeps'
  refine ⟨b, if ended then b'.close else b', by rw [fill, filled]; rfl, by rw [fill, all]; rfl, ?_, ?_⟩
  · cases ended <;> exact forward
  · cases ended with
    | false => exact keeps'
    | true => exact keeps'.close

end Buffer

end PegFlow
