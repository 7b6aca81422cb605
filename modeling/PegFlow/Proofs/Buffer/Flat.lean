/-
# PegFlow.Proofs.Buffer.Flat -- the chunks of a buffer as one text

`b.Shows T` says that `b` holds the end of the text `T` that was appended so far:
what was let go and the chunks that are kept make up `T`, and the chunks touch
each other. Appending and closing keep it (`Shows.append`, `Shows.close`).

A read at or above the window of a buffer that shows `T` gives what `T` says
there, wherever the chunks were cut: `Shows.charAt_eq`, `Shows.startsWith_eq` and
`Shows.substrExact_eq`.
-/
import PegFlow.Buffer
import PegFlow.Proofs.Text.Cut

namespace PegFlow

set_option autoImplicit false

open Text

/-! ## Chunks that follow one another -/

namespace Chunk

/-- The text of chunks one after the other. -/
def joined (chunks : List Chunk) : String := String.join (chunks.map Chunk.text)

@[simp] theorem joined_nil : joined [] = "" := String.join_nil

@[simp] theorem joined_cons (c : Chunk) (rest : List Chunk) :
    joined (c :: rest) = c.text ++ joined rest := String.join_cons

theorem joined_append (cs ds : List Chunk) : joined (cs ++ ds) = joined cs ++ joined ds := by
  simp [joined, String.join_append]

theorem joined_concat (cs : List Chunk) (c : Chunk) : joined (cs ++ [c]) = joined cs ++ c.text := by
  rw [joined_append, joined_cons, joined_nil, String.append_empty]

/-- No chunk is empty, the first one begins at `o` and each other one where the
chunk before it ends. -/
def Follow : Nat → List Chunk → Prop
  | _, [] => True
  | o, c :: rest => c.offset = o ∧ c.text ≠ "" ∧ Follow c.stop rest

theorem stop_eq {c : Chunk} {o : Nat} (h : c.offset = o) : c.stop = o + c.text.utf8ByteSize := by
  rw [stop, h]

theorem size_pos {c : Chunk} (h : c.text ≠ "") : 0 < c.text.utf8ByteSize :=
  Nat.pos_of_ne_zero (mt String.utf8ByteSize_eq_zero_iff.1 h)

theorem Follow.append {o : Nat} {cs ds : List Chunk} (h : Follow o cs)
    (next : Follow (o + (joined cs).utf8ByteSize) ds) : Follow o (cs ++ ds) := by
  induction cs generalizing o with
  | nil => simpa using next
  | cons c rest ih =>
      obtain ⟨at_, filled, follow⟩ := h
      refine ⟨at_, filled, ih follow ?_⟩
      simpa [stop_eq at_, String.utf8ByteSize_append, Nat.add_assoc] using next

/-- The chunks from the one that holds `p` are the end of the chunks; there are none
only when `p` lies beyond them all. -/
theorem Follow.dropWhile {o p : Nat} {chunks : List Chunk} (h : Follow o chunks) (le : o ≤ p) :
    (chunks.dropWhile (fun c => c.stop ≤ p) = [] ∧ o + (joined chunks).utf8ByteSize ≤ p) ∨
      ∃ before c rest, chunks.dropWhile (fun c => c.stop ≤ p) = c :: rest ∧
        joined chunks = before ++ (c.text ++ joined rest) ∧
        c.offset = o + before.utf8ByteSize ∧ c.offset ≤ p ∧ p < c.stop ∧ Follow c.stop rest := by
  induction chunks generalizing o with
  | nil => exact Or.inl ⟨rfl, by simpa using le⟩
  | cons c rest ih =>
      obtain ⟨at_, filled, follow⟩ := h
      by_cases before : c.stop ≤ p
      · rw [List.dropWhile_cons_of_pos (by simpa using before)]
        have stop := stop_eq at_
        rcases ih follow before with ⟨none, beyond⟩ | ⟨a, d, ds, some_, text, offset, low, high, tail⟩
        · refine Or.inl ⟨none, ?_⟩
          rw [joined_cons, String.utf8ByteSize_append]
          omega
        · refine Or.inr ⟨c.text ++ a, d, ds, some_, ?_, ?_, low, high, tail⟩
          · rw [joined_cons, text, String.append_assoc]
          · rw [String.utf8ByteSize_append]
            omega
      · rw [List.dropWhile_cons_of_neg (by simpa using before)]
        exact Or.inr ⟨"", c, rest, rfl, by simp, by simp [at_], by omega, by omega, follow⟩

end Chunk

namespace Buffer

/-- The buffer holds the end of `T`, all the text that was appended to it. -/
structure Shows (b : Buffer) (T : String) : Prop where
  kept : ∃ gone, T = gone ++ Chunk.joined b.chunks ∧ gone.utf8ByteSize = b.start ∧
    b.evicted = Cursor.start.advance (octets gone)
  follow : Chunk.Follow b.start b.chunks
  length_eq : b.length = T.utf8ByteSize

theorem shows_empty (minRetained : Nat) : (empty minRetained).Shows "" :=
  ⟨⟨"", rfl, rfl, rfl⟩, trivial, rfl⟩

theorem Shows.close {b : Buffer} {T : String} (h : b.Shows T) : b.close.Shows T :=
  ⟨h.kept, h.follow, h.length_eq⟩

theorem Shows.start_le {b : Buffer} {T : String} (h : b.Shows T) : b.start ≤ T.utf8ByteSize := by
  obtain ⟨gone, rfl, size, -⟩ := h.kept
  simp [← size, String.utf8ByteSize_append]

/-- What is left of chunks, where it begins and the cursor there, after some text was
let go. -/
def Leaves (start : Nat) (evicted : Cursor) (chunks : List Chunk)
    (left : Nat × Cursor × List Chunk) : Prop :=
  ∃ gone, Chunk.joined chunks = gone ++ Chunk.joined left.2.2 ∧
    left.1 = start + gone.utf8ByteSize ∧ left.2.1 = evicted.advance (octets gone) ∧
    Chunk.Follow left.1 left.2.2

theorem Leaves.all {start : Nat} {evicted : Cursor} {chunks : List Chunk}
    (follow : Chunk.Follow start chunks) : Leaves start evicted chunks (start, evicted, chunks) :=
  ⟨"", by simp, by simp, rfl, follow⟩

theorem evict_leaves (minRetained length start : Nat) (evicted : Cursor) (chunks : List Chunk)
    (follow : Chunk.Follow start chunks) :
    Leaves start evicted chunks (evict minRetained length start evicted chunks) := by
  fun_induction evict minRetained length start evicted chunks with
  | case1 => exact .all follow
  | case2 => exact .all follow
  | case3 => exact .all follow
  | case4 start evicted c d rest _ ih =>
      obtain ⟨at_, filled, tail⟩ := follow
      obtain ⟨gone, text, here, counted, kept⟩ := ih tail
      refine ⟨c.text ++ gone, ?_, ?_, ?_, kept⟩
      · rw [Chunk.joined_cons, text, String.append_assoc]
      · rw [here, Chunk.stop_eq at_, String.utf8ByteSize_append, Nat.add_assoc]
      · rw [counted, octets_append, Cursor.advance_append]

theorem append_nothing {b : Buffer} (isOpen : b.closed = false) : b.append "" = .ok b := by
  simp [append, isOpen]

theorem append_filled {b : Buffer} (isOpen : b.closed = false) {text : String} (filled : text ≠ "") :
    b.append text = .ok { b with
      chunks := (evict b.minRetained (b.length + text.utf8ByteSize) b.start b.evicted
        (b.chunks ++ [⟨b.length, text⟩])).2.2
      start := (evict b.minRetained (b.length + text.utf8ByteSize) b.start b.evicted
        (b.chunks ++ [⟨b.length, text⟩])).1
      length := b.length + text.utf8ByteSize
      evicted := (evict b.minRetained (b.length + text.utf8ByteSize) b.start b.evicted
        (b.chunks ++ [⟨b.length, text⟩])).2.1 } := by
  rw [append, isOpen, if_neg Bool.false_ne_true, if_neg (mt String.utf8ByteSize_eq_zero_iff.1 filled)]

/-- The chunks fill the window up to the end of the text. -/
theorem Shows.start_add {b : Buffer} {T : String} (shows : b.Shows T) :
    b.start + (Chunk.joined b.chunks).utf8ByteSize = b.length := by
  obtain ⟨gone, hT, size, -⟩ := shows.kept
  rw [shows.length_eq, hT, String.utf8ByteSize_append, size]

/-- A new chunk follows those that are there. -/
theorem Shows.follow_new {b : Buffer} {T text : String} (shows : b.Shows T) (filled : text ≠ "") :
    Chunk.Follow b.start (b.chunks ++ [⟨b.length, text⟩]) :=
  shows.follow.append ⟨shows.start_add.symm, filled, trivial⟩

theorem append_of_open {b : Buffer} (isOpen : b.closed = false) (text : String) :
    ∃ b', b.append text = .ok b' ∧ b'.closed = false ∧ b'.minRetained = b.minRetained ∧
      ∀ T, b.Shows T → b'.Shows (T ++ text) := by
  by_cases none : text = ""
  · subst none
    refine ⟨b, append_nothing isOpen, isOpen, rfl, fun T shows => ?_⟩
    rwa [String.append_empty]
  · refine ⟨_, append_filled isOpen none, isOpen, rfl, fun T shows => ?_⟩
    obtain ⟨gone, hT, size, counted⟩ := shows.kept
    obtain ⟨more, all, start, cursor, kept⟩ := evict_leaves b.minRetained
      (b.length + text.utf8ByteSize) b.start b.evicted _ (shows.follow_new none)
    rw [Chunk.joined_concat] at all
    refine ⟨⟨gone ++ more, ?_, ?_, ?_⟩, kept, ?_⟩
    · rw [hT, String.append_assoc, String.append_assoc, all]
    · rw [start, String.utf8ByteSize_append, size]
    · rw [cursor, counted, octets_append, Cursor.advance_append]
    · rw [String.utf8ByteSize_append, shows.length_eq]

theorem append_of_closed {b : Buffer} (isClosed : b.closed = true) (text : String) :
    b.append text = .error .closed := by
  simp [append, isClosed]

theorem isOpen_of_append {b b' : Buffer} {text : String} (appended : b.append text = .ok b') :
    b.closed = false := by
  cases closed : b.closed with
  | false => rfl
  | true => cases (append_of_closed closed text).symm.trans appended

theorem shows_complete (text : String) : (complete text).Shows text := by
  obtain ⟨b, appended, -, -, shows⟩ := append_of_open (b := empty maxOffset) rfl text
  rw [complete, appended]
  simpa using (shows "" (shows_empty _)).close

theorem complete_closed (text : String) : (complete text).closed = true := by
  obtain ⟨b, appended, -⟩ := append_of_open (b := empty maxOffset) rfl text
  rw [complete, appended]
  rfl

theorem complete_start (text : String) : (complete text).start = 0 := by
  by_cases none : text.utf8ByteSize = 0
  · simp [complete, append, empty, close, none]
  · simp [complete, append, empty, close, evict, none]

/-! ## Reads above the window -/

theorem checkRetained_of_le {b : Buffer} {p : Nat} (le : b.start ≤ p) : b.checkRetained p = .ok () := by
  rw [checkRetained, if_neg (by omega)]

theorem checkRetained_of_lt {b : Buffer} {p : Nat} (lt : p < b.start) :
    b.checkRetained p = .error (.inputFreed p b.start) := by
  rw [checkRetained, if_pos lt]

/-- The chunk that holds an offset inside the window, and its place in the whole text. -/
theorem Shows.chunksAt {b : Buffer} {T : String} (shows : b.Shows T) {p : Nat} (low : b.start ≤ p)
    (high : p < T.utf8ByteSize) :
    ∃ a c rest, b.chunksAt p = c :: rest ∧ T = a ++ (c.text ++ Chunk.joined rest) ∧
      a.utf8ByteSize = c.offset ∧ c.offset ≤ p ∧ p < c.stop ∧ Chunk.Follow c.stop rest := by
  obtain ⟨gone, hT, size, -⟩ := shows.kept
  rcases shows.follow.dropWhile low with ⟨-, beyond⟩ | ⟨a, c, rest, found, text, offset, h⟩
  · rw [hT, String.utf8ByteSize_append] at high
    omega
  · refine ⟨gone ++ a, c, rest, found, ?_, ?_, h⟩
    · rw [hT, text, String.append_assoc]
    · rw [String.utf8ByteSize_append, size, offset]

theorem Shows.chunksAt_end {b : Buffer} {T : String} (shows : b.Shows T) {p : Nat}
    (low : b.start ≤ p) (high : T.utf8ByteSize ≤ p) : b.chunksAt p = [] := by
  obtain ⟨gone, hT, size, -⟩ := shows.kept
  rcases shows.follow.dropWhile low with ⟨none, -⟩ | ⟨a, c, rest, -, text, offset, -, inside, -⟩
  · exact none
  · rw [Chunk.stop] at inside
    rw [hT, text, String.utf8ByteSize_append, String.utf8ByteSize_append,
      String.utf8ByteSize_append] at high
    omega

theorem charAt?_middle (a t z : String) {i : Nat} (inside : i < t.utf8ByteSize) :
    charAt? (a ++ (t ++ z)) (a.utf8ByteSize + i) = charAt? t i := by
  by_cases boundary : IsBoundary t i
  · obtain ⟨u, v, rfl, rfl⟩ := boundary
    have filled : v ≠ "" := fun h => by simp [h] at inside
    have whole : a ++ (u ++ v ++ z) = (a ++ u) ++ (v ++ z) := by simp only [String.append_assoc]
    rw [whole, ← String.utf8ByteSize_append, charAt?_cut, charAt?_cut, String.toList_append,
      List.head?_append_of_ne_nil _ (by simpa using filled)]
  · rw [charAt?_eq_none boundary, charAt?_eq_none]
    rintro ⟨u, v, cut, size⟩
    obtain ⟨m, rfl, right⟩ := append_eq_append cut (by omega)
    rw [String.utf8ByteSize_append] at size
    obtain ⟨k, rfl, -⟩ := append_eq_append right.symm (by omega)
    exact boundary ⟨m, k, rfl, by omega⟩

/-- The character at an offset of the window is that of the text. -/
theorem Shows.charAt_eq {b : Buffer} {T : String} (shows : b.Shows T) {p : Nat} (low : b.start ≤ p) :
    b.charAt p =
      if T.utf8ByteSize ≤ p then .error b.pastEnd
      else match charAt? T p with
        | some c => .ok c
        | none => .error (.misaligned p) := by
  rw [charAt, checkRetained_of_le low, shows.length_eq]
  show (if T.utf8ByteSize ≤ p then _ else _) = _
  by_cases beyond : T.utf8ByteSize ≤ p
  · rw [if_pos beyond, if_pos beyond]
  · obtain ⟨a, c, rest, found, hT, size, at_, inside, -⟩ := shows.chunksAt low (by omega)
    rw [Chunk.stop] at inside
    have same : charAt? T p = charAt? c.text (p - c.offset) := by
      have := charAt?_middle a c.text (Chunk.joined rest) (i := p - c.offset) (by omega)
      rwa [← hT, size, Nat.add_sub_cancel' at_] at this
    rw [same]
    cases char : charAt? c.text (p - c.offset) <;> simp only [if_neg beyond, found, char]

theorem Shows.matchChunks_eq {p : Nat} {chunks : List Chunk} {o : Nat} (wanted : List UInt8)
    (follow : Chunk.Follow o chunks) (low : o ≤ p) (high : ∀ c ∈ chunks.head?, p ≤ c.stop) :
    matchChunks p chunks wanted = matchOctets ((octets (Chunk.joined chunks)).drop (p - o)) wanted := by
  induction chunks generalizing o p wanted with
  | nil => cases wanted <;> simp [matchChunks, matchOctets, octets]
  | cons c rest ih =>
      obtain ⟨at_, filled, tail⟩ := follow
      have inside := high c (by simp)
      have stop := Chunk.stop_eq at_
      have split : (octets (Chunk.joined (c :: rest))).drop (p - o) =
          (octets c.text).drop (p - o) ++ octets (Chunk.joined rest) := by
        rw [Chunk.joined_cons, octets_append, List.drop_append_of_le_length]
        rw [length_octets]
        omega
      have next : ∀ left, matchChunks c.stop rest left =
          matchOctets (octets (Chunk.joined rest)) left := by
        intro left
        have later := ih left tail (Nat.le_refl c.stop) fun d hd => by
          cases rest with
          | nil => simp at hd
          | cons e es =>
              simp only [List.head?_cons, Option.mem_some_iff] at hd
              subst hd
              rw [Chunk.stop_eq tail.1]
              omega
        simpa using later
      rw [split, matchOctets_append, matchChunks, matchFrom_eq_matchOctets, at_]
      rcases matchOctets ((octets c.text).drop (p - o)) wanted with _ | _ | ⟨w, left⟩
      · rfl
      · exact (matchOctets_nil _).symm
      · exact next (w :: left)

/-- Comparing a literal with the window is comparing it with the text. -/
theorem Shows.startsWith_eq {b : Buffer} {T : String} (shows : b.Shows T) {p : Nat}
    (low : b.start ≤ p) (literal : String) :
    b.startsWith p literal =
      match matchOctets ((octets T).drop p) (octets literal) with
      | none => .ok false
      | some [] => .ok true
      | some (_ :: _) => if b.closed then .ok false else .error .needInput := by
  have same : matchChunks p (b.chunksAt p) (octets literal) =
      matchOctets ((octets T).drop p) (octets literal) := by
    by_cases beyond : T.utf8ByteSize ≤ p
    · rw [shows.chunksAt_end low beyond, List.drop_eq_nil_of_le (by rw [length_octets]; omega)]
      cases octets literal <;> rfl
    · obtain ⟨a, c, rest, found, hT, size, at_, inside, tail⟩ := shows.chunksAt low (by omega)
      have follow : Chunk.Follow c.offset (c :: rest) := ⟨rfl, fun none => by
        rw [Chunk.stop, none] at inside
        simp at inside
        omega, tail⟩
      rw [found, Shows.matchChunks_eq (octets literal) follow at_ (by simpa using by omega)]
      have dropped : (octets T).drop p = (octets (Chunk.joined (c :: rest))).drop (p - c.offset) := by
        rw [hT, octets_append, List.drop_append, length_octets, size, Chunk.joined_cons,
          List.drop_eq_nil_of_le (by rw [length_octets]; omega), List.nil_append]
      rw [dropped]
  rw [startsWith, checkRetained_of_le low]
  show (match matchChunks p (b.chunksAt p) (octets literal) with | none => _ | some [] => _ | some (_ :: _) => _) = _
  rw [same]

/-- A part of a text that ends within the first of two pieces is a slice of that piece. -/
theorem slice?_within {c r u t z : String} (text : c ++ r = u ++ (t ++ z))
    (within : u.utf8ByteSize + t.utf8ByteSize ≤ c.utf8ByteSize) :
    slice? c u.utf8ByteSize (u.utf8ByteSize + t.utf8ByteSize) = some t := by
  rw [← String.append_assoc] at text
  obtain ⟨k, rfl, -⟩ := append_eq_append text.symm (by rwa [String.utf8ByteSize_append])
  exact slice?_cut u t k

/-- The pieces of chunks that follow `o` between two boundaries: `t` begins at `p`, or at
`o` when `p` lies before, and ends at `q`. -/
theorem pieces_eq {p q o : Nat} {chunks : List Chunk} {u t z : String} (follow : Chunk.Follow o chunks)
    (text : Chunk.joined chunks = u ++ (t ++ z)) (size : u.utf8ByteSize = p - o)
    (stop : q = max p o + t.utf8ByteSize) (high : ∀ c ∈ chunks.head?, p ≤ c.stop) :
    pieces p q chunks = .ok t := by
  induction chunks generalizing o u t with
  | nil =>
      rw [Chunk.joined_nil] at text
      have none := congrArg String.utf8ByteSize text.symm
      simp only [String.utf8ByteSize_append, String.utf8ByteSize_empty] at none
      rw [String.utf8ByteSize_eq_zero_iff.1 (by omega : t.utf8ByteSize = 0)]
      rfl
  | cons c rest ih =>
      obtain ⟨at_, filled, tail⟩ := follow
      have inside := high c (by simp)
      have ends := Chunk.stop_eq at_
      rw [Chunk.joined_cons] at text
      rw [pieces]
      by_cases before : q ≤ c.offset
      · rw [if_pos before, String.utf8ByteSize_eq_zero_iff.1 (by omega : t.utf8ByteSize = 0)]
      · rw [if_neg before, show max p c.offset - c.offset = u.utf8ByteSize by omega]
        by_cases within : q ≤ c.stop
        · have cut := slice?_within text (by omega)
          have done : pieces p q rest = .ok "" := by
            cases rest with
            | nil => rfl
            | cons d ds => rw [pieces, if_pos (by rw [tail.1]; omega)]
          rw [show min q c.stop - c.offset = u.utf8ByteSize + t.utf8ByteSize by omega]
          simp only [cut, done]
          exact congrArg Except.ok String.append_empty
        · obtain ⟨m, hm, right⟩ := append_eq_append text.symm (by omega)
          have sizes := congrArg String.utf8ByteSize hm
          rw [String.utf8ByteSize_append] at sizes
          obtain ⟨k, rfl, after⟩ := append_eq_append right.symm (by omega)
          rw [String.utf8ByteSize_append] at stop
          rw [String.append_assoc] at text
          have cut := slice?_within text (by omega)
          have later := ih (u := "") tail (by simpa using after) (by simp; omega) (by omega) fun d hd => by
            cases rest with
            | nil => simp at hd
            | cons e es =>
                simp only [List.head?_cons, Option.mem_some_iff] at hd
                subst hd
                rw [Chunk.stop_eq tail.1]
                omega
          rw [show min q c.stop - c.offset = u.utf8ByteSize + m.utf8ByteSize by omega]
          simp only [cut, later]
          rfl

theorem Shows.slice_eq {b : Buffer} {T : String} (shows : b.Shows T) {a t z : String}
    (text : T = a ++ (t ++ z)) (filled : t ≠ "") (low : b.start ≤ a.utf8ByteSize) :
    b.slice a.utf8ByteSize (a.utf8ByteSize + t.utf8ByteSize) = .ok t := by
  have positive : 0 < t.utf8ByteSize := Nat.pos_of_ne_zero (mt String.utf8ByteSize_eq_zero_iff.1 filled)
  have total := congrArg String.utf8ByteSize text
  simp only [String.utf8ByteSize_append] at total
  obtain ⟨d, c, rest, found, hT, size, at_, inside, tail⟩ := shows.chunksAt low (by omega)
  obtain ⟨u, rfl, right⟩ := append_eq_append (hT.symm.trans text) (by omega)
  rw [String.utf8ByteSize_append] at *
  rw [slice, found]
  by_cases within : d.utf8ByteSize + u.utf8ByteSize + t.utf8ByteSize ≤ c.stop
  · have stop := Chunk.stop_eq (rfl : c.offset = c.offset)
    have cut := slice?_within right (by omega)
    simp only [if_pos within]
    rw [show d.utf8ByteSize + u.utf8ByteSize - c.offset = u.utf8ByteSize by omega,
      show d.utf8ByteSize + u.utf8ByteSize + t.utf8ByteSize - c.offset =
        u.utf8ByteSize + t.utf8ByteSize by omega, cut]
  · have some_ : c.text ≠ "" := fun none => by
      rw [Chunk.stop, none, String.utf8ByteSize_empty] at inside
      omega
    simp only [if_neg within]
    have follow : Chunk.Follow c.offset (c :: rest) := ⟨rfl, some_, tail⟩
    exact pieces_eq follow (by simpa using right) (by omega) (by omega) (by simpa using Nat.le_of_lt inside)

/-- The text between two boundaries of the window is that of the text. -/
theorem Shows.substrExact_eq {b : Buffer} {T : String} (shows : b.Shows T)
    (fits : T.utf8ByteSize ≤ maxOffset) {i j : Nat} (first : IsBoundary T i) (last : IsBoundary T j)
    (le : i ≤ j) (low : b.start ≤ i) : b.substrExact i (j - i) = .ok (between T i j) := by
  obtain ⟨a, z, cut, size, stop⟩ := cut_between first last le
  have total := last.le
  have high : min (i + (j - i)) maxOffset = j := by omega
  rw [substrExact, checkRetained_of_le low, shows.length_eq, high]
  show (if _ < _ then _ else if _ then _ else _) = _
  rw [if_neg (by omega)]
  by_cases none : j - i = 0
  · rw [if_pos none, String.utf8ByteSize_eq_zero_iff.1 (by omega : (between T i j).utf8ByteSize = 0)]
  · have filled : between T i j ≠ "" := fun h => by
      rw [h, String.utf8ByteSize_empty] at stop
      omega
    have slice := shows.slice_eq (String.append_assoc ▸ cut) filled (by omega)
    rw [size, stop] at slice
    rw [if_neg none, slice]

/-- The text between two boundaries is read, or it is no longer held. -/
theorem Shows.substrExact_cases {b : Buffer} {T : String} (shows : b.Shows T)
    (fits : T.utf8ByteSize ≤ maxOffset) {i j : Nat} (first : IsBoundary T i) (last : IsBoundary T j)
    (le : i ≤ j) : b.substrExact i (j - i) = .ok (between T i j) ∨
      (0 < b.start ∧ b.substrExact i (j - i) = .error (.inputFreed i b.start)) := by
  by_cases low : b.start ≤ i
  · exact Or.inl (shows.substrExact_eq fits first last le low)
  · refine Or.inr ⟨by omega, ?_⟩
    rw [substrExact, checkRetained_of_lt (by omega)]
    rfl

end Buffer

end PegFlow
