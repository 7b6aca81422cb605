/-
# PegFlow.Proofs.Buffer.Misaligned -- which offset a misaligned read names

A read that splits a character is refused with an offset. For a character that is the
offset asked for, and it is inside a character. A slice has two ends. When its start is
inside a character, the start is named. When only its stop is, the offset that is named is
where the last piece begins, the start or the first offset of the chunk that holds the
stop, whichever is later (`Buffer.Shows.slice_blames`): a boundary, so not the
offset at fault (`Buffer.Blames.inside_iff`).

`Buffer.misaligned_inside_iff` says for each read when it is refused so and what it names:
an offset inside a character exactly when the read starts inside one.
-/
import PegFlow.Proofs.Buffer.Reads

namespace PegFlow

set_option autoImplicit false

/-! ## Offsets inside characters -/

namespace Text

/-- The offset lies strictly inside a character of the text, behind its first octet. -/
def IsInside (s : String) (i : Nat) : Prop :=
  ∃ (a : String) (c : Char) (z : String), s = a ++ String.singleton c ++ z ∧
    a.utf8ByteSize < i ∧ i < a.utf8ByteSize + (String.singleton c).utf8ByteSize

/-- Every offset before the end of a text is at or behind the start of some character. -/
theorem exists_character {s : String} {i : Nat} (lt : i < s.utf8ByteSize) :
    ∃ (a : String) (c : Char) (z : String), s = a ++ String.singleton c ++ z ∧
      a.utf8ByteSize ≤ i ∧ i < a.utf8ByteSize + (String.singleton c).utf8ByteSize := by
  obtain ⟨cs, rfl⟩ : ∃ cs, s = String.ofList cs := ⟨s.toList, by simp⟩
  induction cs generalizing i with
  | nil => simp at lt
  | cons c rest ih =>
      have first : String.ofList (c :: rest) = String.singleton c ++ String.ofList rest := by
        rw [← String.toList_inj]
        simp
      rw [first] at lt ⊢
      by_cases here : i < (String.singleton c).utf8ByteSize
      · exact ⟨"", c, String.ofList rest, by simp, by simp, by simpa using here⟩
      · rw [String.utf8ByteSize_append] at lt
        obtain ⟨a, d, z, cut, low, high⟩ := ih (i := i - (String.singleton c).utf8ByteSize) (by omega)
        refine ⟨String.singleton c ++ a, d, z, ?_, ?_, ?_⟩
        · rw [cut]
          simp only [String.append_assoc]
        · rw [String.utf8ByteSize_append]
          omega
        · rw [String.utf8ByteSize_append]
          omega

/-- A character is not cut in two. -/
theorem singleton_eq_append {c : Char} {m k : String} (cut : String.singleton c = m ++ k) :
    m = "" ∨ k = "" := by
  have chars := congrArg String.toList cut
  rw [String.toList_append, String.toList_singleton] at chars
  rcases List.singleton_eq_append_iff.1 chars with ⟨none, -⟩ | ⟨-, none⟩
  · apply Or.inl
    simpa using none
  · apply Or.inr
    simpa using none

/-- The offsets inside characters are those before the end that are no boundaries. -/
theorem isInside_iff {s : String} {i : Nat} : IsInside s i ↔ i < s.utf8ByteSize ∧ ¬ IsBoundary s i := by
  constructor
  · rintro ⟨a, c, z, rfl, low, high⟩
    refine ⟨?_, ?_⟩
    · rw [String.utf8ByteSize_append, String.utf8ByteSize_append]
      omega
    · rintro ⟨u, v, cut, rfl⟩
      rw [String.append_assoc] at cut
      obtain ⟨m, rfl, right⟩ := append_eq_append cut (by omega)
      rw [String.utf8ByteSize_append] at low high
      obtain ⟨k, whole, -⟩ := append_eq_append right.symm (by omega)
      rcases singleton_eq_append whole with rfl | rfl
      · simp at low
      · rw [whole, String.append_empty] at high
        omega
  · rintro ⟨lt, inside⟩
    obtain ⟨a, c, z, cut, low, high⟩ := exists_character lt
    refine ⟨a, c, z, cut, ?_, high⟩
    by_contra notLater
    apply inside
    exact ⟨a, String.singleton c ++ z, by rw [cut, String.append_assoc], by omega⟩

theorem isBoundary_append_left (a b : String) {i : Nat} (within : i ≤ a.utf8ByteSize) :
    IsBoundary (a ++ b) i ↔ IsBoundary a i := by
  constructor
  · rintro ⟨u, v, cut, rfl⟩
    obtain ⟨m, rfl, -⟩ := append_eq_append cut.symm within
    exact ⟨u, m, rfl, rfl⟩
  · intro boundary
    exact boundary.append b

theorem isBoundary_append_right (a b : String) (i : Nat) :
    IsBoundary (a ++ b) (a.utf8ByteSize + i) ↔ IsBoundary b i := by
  constructor
  · rintro ⟨u, v, cut, size⟩
    obtain ⟨m, rfl, rfl⟩ := append_eq_append cut (by omega)
    rw [String.utf8ByteSize_append] at size
    exact ⟨m, v, rfl, by omega⟩
  · rintro ⟨u, v, rfl, rfl⟩
    exact ⟨a ++ u, v, by rw [String.append_assoc], String.utf8ByteSize_append⟩

/-- A slice is refused when one of its ends is no boundary, or they are in the wrong
order. -/
theorem slice?_eq_none_iff {s : String} {i j : Nat} :
    slice? s i j = none ↔ ¬ (IsBoundary s i ∧ IsBoundary s j ∧ i ≤ j) := by
  rw [← not_iff_not, not_not, ← ne_eq, Option.ne_none_iff_exists']
  constructor
  · rintro ⟨t, taken⟩
    obtain ⟨a, z, rfl, rfl, rfl⟩ := slice?_eq_some_iff.1 taken
    refine ⟨⟨a, t ++ z, String.append_assoc, rfl⟩, ⟨a ++ t, z, rfl, ?_⟩, by omega⟩
    exact String.utf8ByteSize_append
  · rintro ⟨first, last, le⟩
    obtain ⟨a, z, cut, size, stop⟩ := cut_between first last le
    exact ⟨between s i j, slice?_eq_some_iff.2 ⟨a, z, cut, size, stop⟩⟩

end Text

open Text

namespace Buffer

/-! ## Slices that split a character -/

/-- Where the chunk that holds an offset begins. -/
def chunkStart (b : Buffer) (p : Nat) : Nat := ((b.chunksAt p).head?.map Chunk.offset).getD b.length

/-- What a slice of a buffer that shows `T` names when it is refused: its start when that is
inside a character, else where the piece of it begins that its stop cuts short. -/
def Blames (b : Buffer) (T : String) (p q o : Nat) : Prop :=
  p < q ∧ (IsInside T p ∧ o = p ∨
    IsBoundary T p ∧ IsInside T q ∧ o = max p (b.chunkStart q))

/-- The pieces of chunks that follow `o` between a boundary and an offset that is none. The
induction is on the chunks: each one that ends before `q` gives its piece, and the one that
holds `q` is blamed. -/
theorem pieces_blames {p q o : Nat} {chunks : List Chunk} (follow : Chunk.Follow o chunks)
    (high : ∀ c ∈ chunks.head?, p ≤ c.stop) (le : p ≤ q) (low : o ≤ q)
    (within : q ≤ o + (Chunk.joined chunks).utf8ByteSize)
    (first : IsBoundary (Chunk.joined chunks) (p - o))
    (last : ¬ IsBoundary (Chunk.joined chunks) (q - o)) :
    ∃ c rest, chunks.dropWhile (fun c => c.stop ≤ q) = c :: rest ∧
      pieces p q chunks = .error (.misaligned (max p c.offset)) := by
  induction chunks generalizing o with
  | nil =>
      rw [Chunk.joined_nil, String.utf8ByteSize_empty] at within
      rw [show q - o = 0 by omega] at last
      exact absurd (isBoundary_zero _) last
  | cons c rest ih =>
      obtain ⟨at_, filled, tail⟩ := follow
      have inside := high c (by simp)
      have stop := Chunk.stop_eq at_
      rw [Chunk.joined_cons] at within first last
      rw [String.utf8ByteSize_append] at within
      rw [isBoundary_append_left _ _ (by omega)] at first
      have later : ¬ q ≤ c.offset := by
        intro before
        rw [show q - o = 0 by omega] at last
        exact last (isBoundary_zero _)
      rw [pieces, if_neg later, show max p c.offset - c.offset = p - o by omega]
      dsimp only
      by_cases here : q ≤ c.stop
      · rw [isBoundary_append_left _ _ (by omega)] at last
        have notEnd : q ≠ c.stop := by
          rintro rfl
          apply last
          exact ⟨c.text, "", by simp, by omega⟩
        have refused : slice? c.text (p - o) (min q c.stop - c.offset) = none := by
          rw [show min q c.stop - c.offset = q - o by omega, slice?_eq_none_iff]
          intro cut
          exact last cut.2.1
        refine ⟨c, rest, ?_, ?_⟩
        · rw [List.dropWhile_cons_of_neg]
          simp only [decide_eq_true_eq]
          omega
        · rw [refused, show c.offset + (p - o) = max p c.offset by omega]
      · have behind : q - o = c.text.utf8ByteSize + (q - c.stop) := by omega
        rw [behind, isBoundary_append_right] at last
        have start : IsBoundary (Chunk.joined rest) (p - c.stop) := by
          rw [show p - c.stop = 0 by omega]
          exact isBoundary_zero _
        obtain ⟨d, ds, found, blamed⟩ := ih tail (tail.head_le inside) (by omega) (by omega) start last
        refine ⟨d, ds, ?_, ?_⟩
        · rw [List.dropWhile_cons_of_pos, found]
          simp only [decide_eq_true_eq]
          omega
        · have whole : IsBoundary c.text c.text.utf8ByteSize := ⟨c.text, "", by simp, rfl⟩
          cases taken : slice? c.text (p - o) (min q c.stop - c.offset) with
          | none =>
              rw [show min q c.stop - c.offset = c.text.utf8ByteSize by omega, slice?_eq_none_iff] at taken
              exact absurd ⟨first, whole, by omega⟩ taken
          | some s =>
              rw [blamed]
              rfl

/-- The chunks from a later offset on are among those from an earlier one on. -/
theorem chunksAt_of_le (b : Buffer) {p q : Nat} (le : p ≤ q) :
    b.chunksAt q = (b.chunksAt p).dropWhile fun c => c.stop ≤ q := by
  unfold chunksAt
  induction b.chunks with
  | nil => rfl
  | cons c rest ih =>
      by_cases before : c.stop ≤ p
      · have later : c.stop ≤ q := Nat.le_trans before le
        simp only [List.dropWhile_cons, before, later, decide_true, if_true, ih]
      · simp only [List.dropWhile_cons, before, decide_false, if_false, Bool.false_eq_true]

section

variable {b : Buffer} {T : String} (shows : b.Shows T) {p q : Nat}

include shows

/-- The chunk that holds an offset begins at a boundary. -/
theorem Shows.isBoundary_chunkStart (low : b.start ≤ q) (lt : q < T.utf8ByteSize) :
    IsBoundary T (b.chunkStart q) := by
  obtain ⟨a, c, rest, found, text, size, -⟩ := shows.chunksAt low lt
  rw [chunkStart, found]
  exact ⟨a, c.text ++ Chunk.joined rest, text, size⟩

/-- The chunks from an offset on as a text, in which the offsets from there on are boundaries
when they are boundaries of the whole text. -/
theorem Shows.chunksAt_follow (low : b.start ≤ p) (lt : p < T.utf8ByteSize) :
    ∃ c rest, b.chunksAt p = c :: rest ∧ c.offset ≤ p ∧ p < c.stop ∧
      Chunk.Follow c.offset (c :: rest) ∧
      c.offset + (Chunk.joined (c :: rest)).utf8ByteSize = T.utf8ByteSize ∧
      ∀ i, c.offset ≤ i → (IsBoundary T i ↔ IsBoundary (Chunk.joined (c :: rest)) (i - c.offset)) := by
  obtain ⟨a, c, rest, found, text, size, at_, high, tail⟩ := shows.chunksAt low lt
  have filled : c.text ≠ "" := by
    intro none
    rw [Chunk.stop, none, String.utf8ByteSize_empty] at high
    omega
  rw [← Chunk.joined_cons] at text
  refine ⟨c, rest, found, at_, high, ⟨rfl, filled, tail⟩, ?_, ?_⟩
  · rw [text, String.utf8ByteSize_append, size]
  · intro i behind
    have moved := isBoundary_append_right a (Chunk.joined (c :: rest)) (i - c.offset)
    rwa [← text, size, Nat.add_sub_cancel' behind] at moved

/-- A slice that ends within the chunk in which it starts is a piece of chunks like any
other. -/
theorem Shows.slice_eq_pieces (low : b.start ≤ p) (lt : p < q) (le : q ≤ T.utf8ByteSize) :
    b.slice p q = pieces p q (b.chunksAt p) := by
  obtain ⟨c, rest, found, at_, high, ⟨-, -, tail⟩, -⟩ := shows.chunksAt_follow low (by omega)
  rw [slice, found]
  dsimp only
  by_cases here : q ≤ c.stop
  · have others : pieces p q rest = .ok "" := by
      cases rest with
      | nil => rfl
      | cons d ds => rw [pieces, if_pos (by rw [tail.1]; omega)]
    rw [if_pos here, pieces, if_neg (by omega), show max p c.offset = p by omega,
      show min q c.stop = q by omega, others]
    dsimp only
    cases slice? c.text (p - c.offset) (q - c.offset) with
    | none => rw [Nat.add_sub_cancel' at_]
    | some s => exact congrArg Except.ok String.append_empty.symm
  · rw [if_neg here]

/-- A slice that starts inside a character is refused with its start. -/
theorem Shows.slice_of_start (low : b.start ≤ p) (lt : p < q) (le : q ≤ T.utf8ByteSize)
    (inside : ¬ IsBoundary T p) : b.slice p q = .error (.misaligned p) := by
  obtain ⟨c, rest, found, at_, high, -, -, moved⟩ := shows.chunksAt_follow low (by omega)
  have stop := Chunk.stop_eq (rfl : c.offset = c.offset)
  rw [moved p at_, Chunk.joined_cons, isBoundary_append_left _ _ (by omega)] at inside
  have refused : slice? c.text (p - c.offset) (min q c.stop - c.offset) = none := by
    rw [slice?_eq_none_iff]
    intro cut
    exact inside cut.1
  rw [shows.slice_eq_pieces low lt le, found, pieces, if_neg (by omega), show max p c.offset = p by omega]
  dsimp only
  rw [refused, Nat.add_sub_cancel' at_]

/-- A slice that starts at a boundary and stops inside a character is refused with the start
of its last piece. -/
theorem Shows.slice_of_stop (low : b.start ≤ p) (lt : p < q) (le : q ≤ T.utf8ByteSize)
    (first : IsBoundary T p) (inside : ¬ IsBoundary T q) :
    b.slice p q = .error (.misaligned (max p (b.chunkStart q))) := by
  obtain ⟨c, rest, found, at_, high, follow, total, moved⟩ := shows.chunksAt_follow low (by omega)
  rw [moved p at_] at first
  rw [moved q (by omega)] at inside
  obtain ⟨d, ds, holds, blamed⟩ := pieces_blames (p := p) (q := q) follow
    (by simpa using Nat.le_of_lt high) (by omega) (by omega) (by omega) first inside
  have starts : b.chunkStart q = d.offset := by
    rw [chunkStart, chunksAt_of_le b (Nat.le_of_lt lt), found, holds]
    rfl
  rw [shows.slice_eq_pieces low lt le, found, blamed, starts]

/-- A slice between boundaries is not refused. -/
theorem Shows.slice_of_boundaries (low : b.start ≤ p) (lt : p < q) (first : IsBoundary T p)
    (last : IsBoundary T q) : b.slice p q = .ok (between T p q) := by
  obtain ⟨a, z, cut, size, stop⟩ := cut_between first last (Nat.le_of_lt lt)
  have filled : between T p q ≠ "" := by
    intro none
    rw [none, String.utf8ByteSize_empty] at stop
    omega
  have slice := shows.slice_eq (String.append_assoc ▸ cut) filled (by omega)
  rwa [size, stop] at slice

/-- A slice of the window is refused exactly when it has an end inside a character. -/
theorem Shows.slice_blames (low : b.start ≤ p) (lt : p < q) (le : q ≤ T.utf8ByteSize) (o : Nat) :
    b.slice p q = .error (.misaligned o) ↔ b.Blames T p q o := by
  by_cases first : IsBoundary T p
  · have start : ¬ IsInside T p := by
      rw [isInside_iff]
      exact fun inside => inside.2 first
    by_cases last : IsBoundary T q
    · have stop : ¬ IsInside T q := by
        rw [isInside_iff]
        exact fun inside => inside.2 last
      rw [shows.slice_of_boundaries low lt first last]
      simp [Blames, start, stop]
    · have short : q ≠ T.utf8ByteSize := by
        rintro rfl
        exact last ⟨T, "", by simp, rfl⟩
      have stop : IsInside T q := isInside_iff.2 ⟨by omega, last⟩
      rw [shows.slice_of_stop low lt le first last]
      simp [Blames, lt, start, first, stop, eq_comm]
  · have start : IsInside T p := isInside_iff.2 ⟨by omega, first⟩
    rw [shows.slice_of_start low lt le first]
    simp [Blames, lt, start, first, eq_comm]

/-- What is named is inside a character exactly when the slice starts there. -/
theorem Shows.inside_of_blames (low : b.start ≤ p) {o : Nat} (blames : b.Blames T p q o) :
    IsInside T o ↔ IsInside T p := by
  obtain ⟨lt, ⟨start, rfl⟩ | ⟨first, stop, rfl⟩⟩ := blames
  · exact Iff.rfl
  · have high := (isInside_iff.1 stop).1
    have chunk := shows.isBoundary_chunkStart (q := q) (by omega) high
    have named : IsBoundary T (max p (b.chunkStart q)) := by
      rcases Nat.le_total p (b.chunkStart q) with before | behind
      · rwa [Nat.max_eq_right before]
      · rwa [Nat.max_eq_left behind]
    rw [isInside_iff, isInside_iff]
    exact iff_of_false (fun inside => inside.2 named) (fun inside => inside.2 first)

end

/-! ## The reads of a buffer -/

theorem pastEnd_ne_misaligned (b : Buffer) (o : Nat) : b.pastEnd ≠ .misaligned o := by
  unfold pastEnd
  split <;> simp

/-- A read that refuses what lies below the window refuses nothing there as misaligned. -/
theorem checked_blames {α : Type} {b : Buffer} {p : Nat} {read : Unit → Except ReadError α} {P : Prop} {o : Nat}
    (above : b.start ≤ p → (read () = .error (.misaligned o) ↔ P)) :
    (b.checkRetained p >>= read) = .error (.misaligned o) ↔ b.start ≤ p ∧ P := by
  by_cases low : b.start ≤ p
  · rw [checkRetained_of_le low, and_iff_right low]
    exact above low
  · rw [checkRetained_of_lt (by omega)]
    simp [low, bind, Except.bind]

section

variable {b : Buffer} {T : String} (shows : b.Shows T)

include shows

theorem Shows.charAt_blames (p o : Nat) :
    b.charAt p = .error (.misaligned o) ↔ b.start ≤ p ∧ IsInside T p ∧ o = p := by
  apply checked_blames
  intro low
  have read := shows.charAt_eq low
  rw [charAt, checkRetained_of_le low] at read
  refine (iff_of_eq (congrArg (· = _) read)).trans ?_
  rw [isInside_iff]
  by_cases beyond : T.utf8ByteSize ≤ p
  · rw [if_pos beyond]
    simp [b.pastEnd_ne_misaligned o, Nat.not_lt.2 beyond]
  · rw [if_neg beyond]
    by_cases boundary : IsBoundary T p
    · obtain ⟨a, z, rfl, rfl⟩ := boundary
      have more : z.toList ≠ [] := by
        intro none
        have empty : z = "" := by simpa using none
        simp [empty] at beyond
      have starts : IsBoundary (a ++ z) a.utf8ByteSize := ⟨a, z, rfl, rfl⟩
      rw [charAt?_cut, List.head?_eq_some_head more]
      simp [starts]
    · rw [charAt?_eq_none boundary]
      simp [boundary, Nat.lt_of_not_le beyond, eq_comm]

theorem Shows.substr_blames (fits : T.utf8ByteSize < maxOffset) (p n o : Nat) :
    b.substr p n = .error (.misaligned o) ↔
      b.start ≤ p ∧ b.Blames T p (min (p + n) T.utf8ByteSize) o := by
  apply checked_blames
  intro low
  have stop : min (min (p + n) maxOffset) b.length = min (p + n) T.utf8ByteSize := by
    rw [shows.length_eq]
    omega
  rw [stop]
  dsimp only
  by_cases empty : min (p + n) T.utf8ByteSize ≤ p
  · rw [if_pos empty]
    simp [Blames, Nat.not_lt.2 empty]
  · rw [if_neg empty]
    apply shows.slice_blames low
    · omega
    · omega

theorem Shows.substrExact_blames (fits : T.utf8ByteSize < maxOffset) (p n o : Nat) :
    b.substrExact p n = .error (.misaligned o) ↔
      b.start ≤ p ∧ p + n ≤ T.utf8ByteSize ∧ b.Blames T p (p + n) o := by
  apply checked_blames
  intro low
  rw [shows.length_eq]
  dsimp only
  by_cases beyond : T.utf8ByteSize < p + n
  · rw [if_pos (by omega)]
    simp [b.pastEnd_ne_misaligned o, Nat.not_le.2 beyond]
  · rw [if_neg (by omega), show min (p + n) maxOffset = p + n by omega, and_iff_right (by omega)]
    by_cases none : n = 0
    · rw [if_pos none]
      simp [Blames, none]
    · rw [if_neg none]
      apply shows.slice_blames low
      · omega
      · omega

end

/-- Which reads of a buffer are refused as misaligned, however its text was cut into pieces and
whatever was let go: those of a character and of slices that have an end inside a character.
What they name is inside a character exactly when the read starts inside one; a slice that only
stops inside one names the boundary at which its last piece begins. -/
theorem misaligned_inside_iff (minRetained : Nat) (pieces : List String) (ended : Bool)
    (fits : (String.join pieces).utf8ByteSize < maxOffset) :
    ∃ b, (empty minRetained).fill pieces ended = .ok b ∧ ∀ p n o : Nat,
      (b.charAt p = .error (.misaligned o) ↔
        b.start ≤ p ∧ IsInside (String.join pieces) p ∧ o = p) ∧
      (b.substr p n = .error (.misaligned o) ↔
        b.start ≤ p ∧ b.Blames (String.join pieces) p (min (p + n) (String.join pieces).utf8ByteSize) o) ∧
      (b.substrExact p n = .error (.misaligned o) ↔
        b.start ≤ p ∧ p + n ≤ (String.join pieces).utf8ByteSize ∧
          b.Blames (String.join pieces) p (p + n) o) ∧
      (b.charAt p = .error (.misaligned o) → IsInside (String.join pieces) o) ∧
      (b.substr p n = .error (.misaligned o) ∨ b.substrExact p n = .error (.misaligned o) →
        (IsInside (String.join pieces) o ↔ IsInside (String.join pieces) p)) := by
  obtain ⟨b, filled, -, shows⟩ := fill_empty minRetained pieces ended
  refine ⟨b, filled, fun p n o => ?_⟩
  have character := shows.charAt_blames p o
  have clamped := shows.substr_blames fits p n o
  have exact_ := shows.substrExact_blames fits p n o
  refine ⟨character, clamped, exact_, ?_, ?_⟩
  · intro refused
    obtain ⟨-, inside, rfl⟩ := character.1 refused
    exact inside
  · rintro (refused | refused)
    · obtain ⟨low, blames⟩ := clamped.1 refused
      exact shows.inside_of_blames low blames
    · obtain ⟨low, -, blames⟩ := exact_.1 refused
      exact shows.inside_of_blames low blames

/-- Two slices that start at a boundary and stop inside a character: the first one lies in one
chunk and names its start, the other names the start of the second chunk. -/
theorem misaligned_inside_iff_of_stops : (String.join ["aé", "é"]).utf8ByteSize < maxOffset ∧
    ∃ b, (empty 8).fill ["aé", "é"] false = .ok b ∧
      b.substr 0 2 = .error (.misaligned 0) ∧ b.substrExact 0 4 = .error (.misaligned 3) ∧
      IsInside (String.join ["aé", "é"]) 2 ∧ ¬ IsInside (String.join ["aé", "é"]) 0 ∧
      IsInside (String.join ["aé", "é"]) 4 ∧ ¬ IsInside (String.join ["aé", "é"]) 3 := by
  have fits : (String.join ["aé", "é"]).utf8ByteSize < maxOffset := by decide
  obtain ⟨b, filled, reads⟩ := misaligned_inside_iff 8 ["aé", "é"] false fits
  have first : IsBoundary (String.join ["aé", "é"]) 0 := isBoundary_zero _
  have start : ¬ IsInside (String.join ["aé", "é"]) 0 := by
    rw [isInside_iff]
    exact fun inside => inside.2 first
  have one : IsInside (String.join ["aé", "é"]) 2 := ⟨"a", 'é', "é", by decide, by decide, by decide⟩
  have two : IsInside (String.join ["aé", "é"]) 4 := ⟨"aé", 'é', "", by decide, by decide, by decide⟩
  have evaluated : (empty 8).fill ["aé", "é"] false = .ok ⟨8, [⟨0, "aé"⟩, ⟨3, "é"⟩], 0, 5, false, Cursor.start⟩ := rfl
  obtain rfl : ⟨8, [⟨0, "aé"⟩, ⟨3, "é"⟩], 0, 5, false, Cursor.start⟩ = b := by
    rw [evaluated] at filled
    exact Except.ok.inj filled
  have clamped := (reads 0 2 0).2.1.2 ⟨by decide, by decide, Or.inr ⟨first, one, by decide⟩⟩
  have exact_ := (reads 0 4 3).2.2.1.2 ⟨by decide, by decide, by decide, Or.inr ⟨first, two, by decide⟩⟩
  refine ⟨fits, _, filled, clamped, exact_, one, start, two, ?_⟩
  rw [(reads 0 4 3).2.2.2.2 (Or.inr exact_)]
  exact start

end Buffer

end PegFlow
