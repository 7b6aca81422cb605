/-
# PegFlow.Proofs.Buffer.Reads -- a buffer reads as one flat text

`Flat` says what reading a text as a whole gives: at its end, inside a character, and
where a literal goes on beyond the text. However a text was cut into pieces, and whatever
was let go of them, a buffer that was filled with the pieces reads as the whole text does
from its window on, and refuses what lies below it (`Buffer.reads_as_flat`).

A slice may cross chunks and may split a character at either end, so slices are compared
for all offsets: `Text.slice?_append_left`, `slice?_append_right` and
`slice?_append_across` say how a slice of two texts comes from slices of each.
-/
import PegFlow.Proofs.Buffer.Flat

namespace PegFlow

set_option autoImplicit false

open Text

/-! ## Slices of appended texts -/

namespace Text

/-- A slice is the middle of three parts. -/
theorem slice?_eq_some_iff {s t : String} {i j : Nat} :
    slice? s i j = some t ↔ ∃ a z, s = a ++ t ++ z ∧ a.utf8ByteSize = i ∧ i + t.utf8ByteSize = j := by
  constructor
  · intro taken
    have ends : IsBoundary s i ∧ IsBoundary s j ∧ i ≤ j := by
      rw [slice?] at taken
      split at taken
      · rename_i first last
        split at taken
        · rename_i le
          refine ⟨?_, ?_, le⟩ <;> by_contra inside <;> simp [pos?_eq_none inside] at first last
        · cases taken
      · cases taken
    obtain ⟨first, last, le⟩ := ends
    obtain ⟨a, z, cut, size, stop⟩ := cut_between first last le
    rw [between, taken, Option.getD_some] at cut stop
    exact ⟨a, z, cut, size, stop⟩
  · rintro ⟨a, z, rfl, rfl, rfl⟩
    exact slice?_cut a t z

theorem slice?_append_left (a b : String) {i j : Nat} (within : j ≤ a.utf8ByteSize) :
    slice? (a ++ b) i j = slice? a i j := by
  apply Option.ext
  intro t
  rw [slice?_eq_some_iff, slice?_eq_some_iff]
  constructor
  · rintro ⟨u, z, cut, rfl, rfl⟩
    obtain ⟨m, rfl, -⟩ := append_eq_append cut.symm (by rwa [String.utf8ByteSize_append])
    exact ⟨u, m, rfl, rfl, rfl⟩
  · rintro ⟨u, z, rfl, rfl, rfl⟩
    exact ⟨u, z ++ b, String.append_assoc, rfl, rfl⟩

theorem slice?_append_right (a b : String) (i j : Nat) :
    slice? (a ++ b) (a.utf8ByteSize + i) (a.utf8ByteSize + j) = slice? b i j := by
  apply Option.ext
  intro t
  rw [slice?_eq_some_iff, slice?_eq_some_iff]
  constructor
  · rintro ⟨u, z, cut, size, stop⟩
    rw [String.append_assoc] at cut
    obtain ⟨m, rfl, rfl⟩ := append_eq_append cut (by omega)
    rw [String.utf8ByteSize_append] at size
    exact ⟨m, z, String.append_assoc.symm, by omega, by omega⟩
  · rintro ⟨u, z, rfl, rfl, rfl⟩
    exact ⟨a ++ u, z, by simp only [String.append_assoc], String.utf8ByteSize_append, by omega⟩

/-- A slice across the place where two texts meet is the end of one and the beginning of the
other. -/
theorem slice?_append_across (a b : String) {i j : Nat} (first : i ≤ a.utf8ByteSize)
    (last : a.utf8ByteSize ≤ j) :
    slice? (a ++ b) i j =
      (slice? a i a.utf8ByteSize).bind fun s => (slice? b 0 (j - a.utf8ByteSize)).map (s ++ ·) := by
  apply Option.ext
  intro t
  simp only [Option.bind_eq_some_iff, Option.map_eq_some_iff, slice?_eq_some_iff]
  constructor
  · rintro ⟨u, z, cut, rfl, rfl⟩
    rw [String.append_assoc] at cut
    obtain ⟨m, rfl, right⟩ := append_eq_append cut.symm first
    rw [String.utf8ByteSize_append] at last
    obtain ⟨k, rfl, rest⟩ := append_eq_append right.symm (by omega)
    refine ⟨m, ⟨u, "", by simp, rfl, by rw [String.utf8ByteSize_append]⟩, k, ⟨"", z, by simpa using rest, rfl, ?_⟩, rfl⟩
    rw [String.utf8ByteSize_append, String.utf8ByteSize_append]
    omega
  · rintro ⟨m, ⟨u, y, rfl, rfl, whole⟩, k, ⟨v, z, rfl, empty, stop⟩, rfl⟩
    have noMore : y = "" := by
      rw [String.utf8ByteSize_append, String.utf8ByteSize_append] at whole
      exact String.utf8ByteSize_eq_zero_iff.1 (by omega)
    have atStart : v = "" := String.utf8ByteSize_eq_zero_iff.1 empty
    subst noMore atStart
    refine ⟨u, z, by simp [String.append_assoc], rfl, ?_⟩
    rw [String.utf8ByteSize_append]
    omega

theorem slice?_zero_zero (s : String) : slice? s 0 0 = some "" :=
  slice?_eq_some_iff.2 ⟨"", s, by simp, rfl, rfl⟩

end Text

/-! ## Reading a text as a whole -/

namespace Flat

variable (T : String) (closed : Bool)

/-- Why a read beyond the end of a text gives nothing: it has ended, or it may still grow. -/
def pastEnd : ReadError := if closed then .endOfInput else .needInput

/-- The character at an offset. -/
def charAt (p : Nat) : Except ReadError Char :=
  if T.utf8ByteSize ≤ p then .error (pastEnd closed)
  else
    match charAt? T p with
    | some c => .ok c
    | none => .error (.misaligned p)

/-- Whether the octets from an offset on begin with those of a literal. Where the text ends
within the literal, more text may decide. -/
def startsWith (p : Nat) (literal : String) : Except ReadError Bool :=
  let rest := (octets T).drop p
  if octets literal <+: rest then .ok true
  else if rest <+: octets literal ∧ closed = false then .error .needInput
  else .ok false

/-- The text between two offsets that split no character. -/
def slice (p q : Nat) : Except ReadError String :=
  match slice? T p q with
  | some t => .ok t
  | none => .error (.misaligned p)

/-- The text of at most `n` octets from an offset, as far as there is text. -/
def substr (p n : Nat) : Except ReadError String :=
  let q := min (p + n) T.utf8ByteSize
  if q ≤ p then .ok "" else slice T p q

/-- The text of exactly `n` octets from an offset. -/
def substrExact (p n : Nat) : Except ReadError String :=
  if T.utf8ByteSize < p + n then .error (pastEnd closed)
  else if n = 0 then .ok ""
  else slice T p (p + n)

end Flat

/-- Errors of one kind, whatever offsets they name. -/
def ReadError.SameKind : ReadError → ReadError → Prop
  | .needInput, .needInput => True
  | .endOfInput, .endOfInput => True
  | .inputFreed .., .inputFreed .. => True
  | .misaligned _, .misaligned _ => True
  | .closed, .closed => True
  | _, _ => False

/-- The same value, or errors of one kind. -/
inductive SameRead {α : Type} : Except ReadError α → Except ReadError α → Prop
  | value (a : α) : SameRead (.ok a) (.ok a)
  | refused {e f : ReadError} (same : e.SameKind f) : SameRead (.error e) (.error f)

theorem SameRead.refl {α : Type} (read : Except ReadError α) : SameRead read read := by
  cases read with
  | ok a => exact .value a
  | error e => exact .refused (by cases e <;> trivial)

/-- The read asks for text that was let go. -/
def ReadFreed {α : Type} (read : Except ReadError α) : Prop :=
  ∃ offset retainedFrom, read = .error (.inputFreed offset retainedFrom)

/-- A read at an offset is refused as freed exactly below the window, and is otherwise the
read of the whole text. -/
def ReadsAs {α : Type} (start p : Nat) (read flat : Except ReadError α) : Prop :=
  (ReadFreed read ↔ p < start) ∧ (start ≤ p → SameRead read flat)

/-- The reads of a whole text never ask for text that was let go, so it is enough to look at
the window and below it. -/
theorem ReadsAs.intro {α : Type} {start p : Nat} {read flat : Except ReadError α}
    (never : ¬ ReadFreed flat) (below : p < start → ReadFreed read)
    (above : start ≤ p → SameRead read flat) : ReadsAs start p read flat := by
  refine ⟨⟨fun freed => ?_, below⟩, above⟩
  by_contra inside
  obtain ⟨offset, retainedFrom, rfl⟩ := freed
  generalize eq : (Except.error (.inputFreed offset retainedFrom) : Except ReadError α) = read at above
  cases above (Nat.le_of_not_lt inside) with
  | value a => cases eq
  | @refused e e' same =>
      cases eq
      cases e' with
      | inputFreed o r => exact never ⟨o, r, rfl⟩
      | _ => exact same

namespace Flat

variable {T : String} {closed : Bool} {p q n : Nat}

theorem pastEnd_ne (offset retainedFrom : Nat) : pastEnd closed ≠ .inputFreed offset retainedFrom := by
  cases closed <;> simp [pastEnd]

theorem charAt_not_freed : ¬ ReadFreed (charAt T closed p) := by
  rintro ⟨o, r, freed⟩
  unfold charAt at freed
  split at freed
  · exact pastEnd_ne o r (Except.error.inj freed)
  · split at freed <;> cases freed

theorem startsWith_not_freed {literal : String} : ¬ ReadFreed (startsWith T closed p literal) := by
  rintro ⟨o, r, freed⟩
  unfold startsWith at freed
  dsimp only at freed
  split at freed
  · cases freed
  · split at freed <;> cases freed

theorem slice_not_freed : ¬ ReadFreed (slice T p q) := by
  rintro ⟨o, r, freed⟩
  unfold slice at freed
  split at freed <;> cases freed

theorem substr_not_freed : ¬ ReadFreed (substr T p n) := by
  unfold substr
  dsimp only
  split
  · rintro ⟨o, r, freed⟩
    cases freed
  · exact slice_not_freed

theorem substrExact_not_freed : ¬ ReadFreed (substrExact T closed p n) := by
  unfold substrExact
  split
  · rintro ⟨o, r, freed⟩
    exact pastEnd_ne o r (Except.error.inj freed)
  · split
    · rintro ⟨o, r, freed⟩
      cases freed
    · exact slice_not_freed

end Flat

/-! ## Slices of chunks -/

/-- A slice is compared by what it holds, not by the offsets that an error names. -/
theorem SameRead.slice {read : Except ReadError String} {S T : String} {p q i j : Nat}
    (same : SameRead read (Flat.slice S i j)) (eq : slice? T p q = slice? S i j) :
    SameRead read (Flat.slice T p q) := by
  rw [Flat.slice] at same ⊢
  rw [eq]
  cases taken : slice? S i j with
  | some t => rwa [taken] at same
  | none =>
      rw [taken] at same
      cases same with
      | @refused e _ same =>
          refine .refused ?_
          cases e <;> trivial

/-- What precedes a read is put before what it gives. -/
theorem SameRead.prepend {read : Except ReadError String} {T : String} {p q i : Nat} (s : String)
    (same : SameRead read (Flat.slice T p q)) :
    SameRead (do return s ++ (← read))
      (match (slice? T p q).map (s ++ ·) with
        | some t => .ok t
        | none => .error (.misaligned i)) := by
  rw [Flat.slice] at same
  cases taken : slice? T p q with
  | none =>
      rw [taken] at same
      cases same with
      | @refused e _ same =>
          refine .refused ?_
          cases e <;> trivial
  | some t =>
      rw [taken] at same
      cases same
      exact .value (s ++ t)

/-- What lies before the end of a chunk lies before the end of the next one. -/
theorem Chunk.Follow.head_le {o p : Nat} {chunks : List Chunk} (follow : Follow o chunks) (le : p ≤ o) :
    ∀ c ∈ chunks.head?, p ≤ c.stop := by
  intro c first
  cases chunks with
  | nil => simp at first
  | cons d ds =>
      simp only [List.head?_cons, Option.mem_some_iff] at first
      subst first
      rw [stop_eq follow.1]
      omega

namespace Buffer

/-- The pieces of chunks that follow `o` make up the slice of their text, or both split a
character. The induction is on the chunks: `p` lies in the first one and before each other
one. -/
theorem pieces_agree {p q o : Nat} {chunks : List Chunk} (follow : Chunk.Follow o chunks)
    (high : ∀ c ∈ chunks.head?, p ≤ c.stop) (le : p ≤ q) (low : o ≤ q)
    (within : q ≤ o + (Chunk.joined chunks).utf8ByteSize) :
    SameRead (pieces p q chunks) (Flat.slice (Chunk.joined chunks) (p - o) (q - o)) := by
  induction chunks generalizing o with
  | nil =>
      obtain rfl : q = o := by
        simp only [Chunk.joined_nil, String.utf8ByteSize_empty] at within
        omega
      rw [Nat.sub_eq_zero_of_le le, Nat.sub_self, Flat.slice, slice?_zero_zero]
      exact .value ""
  | cons c rest ih =>
      obtain ⟨at_, filled, tail⟩ := follow
      have inside := high c (by simp)
      have stop := Chunk.stop_eq at_
      rw [Chunk.joined_cons] at within ⊢
      rw [String.utf8ByteSize_append] at within
      rw [pieces]
      by_cases before : q ≤ c.offset
      · obtain rfl : q = o := by omega
        rw [if_pos before, Nat.sub_eq_zero_of_le le, Nat.sub_self, Flat.slice, slice?_zero_zero]
        exact .value ""
      · have first : max p c.offset - c.offset = p - o := by omega
        rw [if_neg before, first]
        by_cases here : q ≤ c.stop
        · have others : pieces p q rest = .ok "" := by
            cases rest with
            | nil => rfl
            | cons d ds => rw [pieces, if_pos (by rw [tail.1]; omega)]
          have last : min q c.stop - c.offset = q - o := by omega
          rw [last, others, Flat.slice, slice?_append_left _ _ (by omega)]
          dsimp only
          cases slice? c.text (p - o) (q - o) with
          | none => exact .refused (f := .misaligned (p - o)) trivial
          | some s =>
              change SameRead (.ok (s ++ "")) (.ok s)
              rw [String.append_empty]
              exact .value s
        · have last : min q c.stop - c.offset = c.text.utf8ByteSize := by omega
          have later := ih tail (tail.head_le inside) (by omega) (by omega)
          rw [Nat.sub_eq_zero_of_le inside] at later
          rw [last, Flat.slice, slice?_append_across _ _ (by omega) (by omega),
            show q - o - c.text.utf8ByteSize = q - c.stop by omega]
          dsimp only
          cases slice? c.text (p - o) c.text.utf8ByteSize with
          | none => exact .refused (f := .misaligned (p - o)) trivial
          | some s => exact later.prepend s

/-- A slice of the window is that of the text, or both split a character. -/
theorem Shows.slice_agrees {b : Buffer} {T : String} (shows : b.Shows T) {p q : Nat}
    (low : b.start ≤ p) (lt : p < q) (le : q ≤ T.utf8ByteSize) :
    SameRead (b.slice p q) (Flat.slice T p q) := by
  obtain ⟨a, c, rest, found, text, size, at_, inside, tail⟩ := shows.chunksAt low (by omega)
  have stop := Chunk.stop_eq (rfl : c.offset = c.offset)
  have moved := slice?_append_right a (c.text ++ Chunk.joined rest) (p - c.offset) (q - c.offset)
  rw [← text, size, Nat.add_sub_cancel' at_, Nat.add_sub_cancel' (by omega)] at moved
  rw [slice, found]
  dsimp only
  by_cases here : q ≤ c.stop
  · rw [if_pos here, Flat.slice, moved, slice?_append_left _ _ (by omega)]
    cases slice? c.text (p - c.offset) (q - c.offset) with
    | none => exact .refused (f := .misaligned p) trivial
    | some t => exact .value t
  · have filled : c.text ≠ "" := by
      intro none
      rw [none, String.utf8ByteSize_empty] at stop
      omega
    have follow : Chunk.Follow c.offset (c :: rest) := ⟨rfl, filled, tail⟩
    have total := congrArg String.utf8ByteSize text
    rw [String.utf8ByteSize_append, ← Chunk.joined_cons] at total
    have pieces_ := pieces_agree (p := p) (q := q) follow (by simpa using Nat.le_of_lt inside)
      (by omega) (by omega) (by omega)
    rw [Chunk.joined_cons] at pieces_
    rw [if_neg here]
    exact pieces_.slice moved

/-! ## The reads of a buffer -/

/-- A read that begins by refusing what lies below the window. -/
theorem readsAs_of_checked {α : Type} {b : Buffer} {p : Nat} {read : Unit → Except ReadError α}
    {flat : Except ReadError α} (never : ¬ ReadFreed flat)
    (above : b.start ≤ p → SameRead (read ()) flat) :
    ReadsAs b.start p (b.checkRetained p >>= read) flat := by
  apply ReadsAs.intro never
  · intro below
    rw [checkRetained_of_lt below]
    exact ⟨p, b.start, rfl⟩
  · intro low
    rw [checkRetained_of_le low]
    exact above low

theorem pastEnd_eq (b : Buffer) : b.pastEnd = Flat.pastEnd b.closed := rfl

section

variable {b : Buffer} {T : String} (shows : b.Shows T) (p n : Nat)

include shows

theorem Shows.reads_charAt : ReadsAs b.start p (b.charAt p) (Flat.charAt T b.closed p) := by
  apply ReadsAs.intro Flat.charAt_not_freed
  · intro below
    rw [charAt, checkRetained_of_lt below]
    exact ⟨p, b.start, rfl⟩
  · intro low
    rw [shows.charAt_eq low, pastEnd_eq]
    exact .refl _

theorem Shows.reads_startsWith (literal : String) :
    ReadsAs b.start p (b.startsWith p literal) (Flat.startsWith T b.closed p literal) := by
  apply ReadsAs.intro Flat.startsWith_not_freed
  · intro below
    rw [startsWith, checkRetained_of_lt below]
    exact ⟨p, b.start, rfl⟩
  · intro low
    rw [shows.startsWith_eq low, Flat.startsWith]
    generalize (octets T).drop p = rest
    generalize octets literal = wanted
    cases left : matchOctets rest wanted with
    | none =>
        have differs : ¬ wanted <+: rest := by
          intro begins
          simp [matchOctets_eq_nil_iff.2 begins] at left
        have apart : ¬ rest <+: wanted := by
          rintro ⟨more, rfl⟩
          cases more with
          | nil => exact differs (by simp)
          | cons w more => simp [matchOctets_eq_cons_iff.2 rfl] at left
        simp only [if_neg differs, apart, false_and, if_false]
        exact .refl _
    | some left_ =>
        cases left_ with
        | nil =>
            rw [if_pos (matchOctets_eq_nil_iff.1 left)]
            exact .refl _
        | cons w more =>
            have differs : ¬ wanted <+: rest := by
              intro begins
              simp [matchOctets_eq_nil_iff.2 begins] at left
            have goesOn : rest <+: wanted := ⟨w :: more, (matchOctets_eq_cons_iff.1 left).symm⟩
            rw [if_neg differs]
            cases b.closed <;> simp [goesOn, SameRead.refl]

theorem Shows.reads_substr (fits : T.utf8ByteSize < maxOffset) :
    ReadsAs b.start p (b.substr p n) (Flat.substr T p n) := by
  apply readsAs_of_checked Flat.substr_not_freed
  intro low
  have clamped : min (min (p + n) maxOffset) b.length = min (p + n) T.utf8ByteSize := by
    rw [shows.length_eq]
    omega
  rw [clamped, Flat.substr]
  dsimp only
  split
  · exact .value ""
  · exact shows.slice_agrees low (by omega) (by omega)

theorem Shows.reads_substrExact (fits : T.utf8ByteSize < maxOffset) :
    ReadsAs b.start p (b.substrExact p n) (Flat.substrExact T b.closed p n) := by
  apply readsAs_of_checked Flat.substrExact_not_freed
  intro low
  rw [Flat.substrExact]
  by_cases beyond : T.utf8ByteSize < p + n
  · rw [if_pos beyond, shows.length_eq, if_pos (by omega)]
    exact .refl _
  · have unclamped : min (p + n) maxOffset = p + n := by omega
    rw [if_neg beyond, unclamped, shows.length_eq, if_neg beyond]
    split
    · exact .value ""
    · exact shows.slice_agrees low (by omega) (by omega)

end

/-! ## Filling a buffer -/

/-- Append pieces of text one after the other, and then say that they were all when they
were. -/
def fill (b : Buffer) (pieces : List String) (ended : Bool) : Except ReadError Buffer := do
  let b ← pieces.foldlM append b
  return if ended then b.close else b

theorem foldlM_append_of_open {b : Buffer} {T : String} (isOpen : b.closed = false) (shows : b.Shows T)
    (pieces : List String) : ∃ b', pieces.foldlM append b = .ok b' ∧ b'.closed = false ∧
      b'.Shows (T ++ String.join pieces) := by
  induction pieces generalizing b T with
  | nil => exact ⟨b, rfl, isOpen, by simpa using shows⟩
  | cons text rest ih =>
      obtain ⟨next, appended, stillOpen, -, grown⟩ := append_of_open isOpen text
      obtain ⟨b', filled, final, all⟩ := ih stillOpen (grown T shows)
      refine ⟨b', ?_, final, ?_⟩
      · rw [List.foldlM_cons, appended]
        exact filled
      · rwa [String.join_cons, ← String.append_assoc]

theorem fill_empty (minRetained : Nat) (pieces : List String) (ended : Bool) :
    ∃ b, (empty minRetained).fill pieces ended = .ok b ∧ b.closed = ended ∧
      b.Shows (String.join pieces) := by
  obtain ⟨b, filled, isOpen, shows⟩ :=
    foldlM_append_of_open (b := empty minRetained) rfl (shows_empty minRetained) pieces
  rw [String.empty_append] at shows
  cases ended with
  | false => exact ⟨b, by rw [fill, filled]; rfl, isOpen, shows⟩
  | true => exact ⟨b.close, by rw [fill, filled]; rfl, rfl, shows.close⟩

/-- However a text was cut into pieces, and whatever of them was let go, the buffer that was
filled with them refuses what lies below its window, and from there on reads as the text. -/
theorem reads_as_flat (minRetained : Nat) (pieces : List String) (ended : Bool)
    (fits : (String.join pieces).utf8ByteSize < maxOffset) :
    ∃ b, (empty minRetained).fill pieces ended = .ok b ∧
      ∀ (p n : Nat) (literal : String),
        ReadsAs b.start p (b.charAt p) (Flat.charAt (String.join pieces) ended p) ∧
        ReadsAs b.start p (b.startsWith p literal)
          (Flat.startsWith (String.join pieces) ended p literal) ∧
        ReadsAs b.start p (b.substr p n) (Flat.substr (String.join pieces) p n) ∧
        ReadsAs b.start p (b.substrExact p n)
          (Flat.substrExact (String.join pieces) ended p n) := by
  obtain ⟨b, filled, rfl, shows⟩ := fill_empty minRetained pieces ended
  refine ⟨b, filled, fun p n literal => ⟨?_, ?_, ?_, ?_⟩⟩
  · exact shows.reads_charAt p
  · exact shows.reads_startsWith p literal
  · exact shows.reads_substr p n fits
  · exact shows.reads_substrExact p n fits

/-- A text in three pieces, of which the first one was let go: a slice of the other two, and a
read inside a character that is gone. -/
theorem reads_as_flat_in_pieces : (String.join ["é€", "b", "c"]).utf8ByteSize < maxOffset ∧
    ∃ b, (empty 2).fill ["é€", "b", "c"] false = .ok b ∧ b.start = 5 ∧
      SameRead (b.substrExact 5 2) (.ok "bc") ∧ ReadFreed (b.charAt 4) := by
  have fits : (String.join ["é€", "b", "c"]).utf8ByteSize < maxOffset := by decide
  obtain ⟨b, filled, reads⟩ := reads_as_flat 2 ["é€", "b", "c"] false fits
  have start : b.start = 5 := by
    have evaluated : (empty 2).fill ["é€", "b", "c"] false =
        .ok ⟨2, [⟨5, "b"⟩, ⟨6, "c"⟩], 5, 7, false, Cursor.start.advance (octets "é€")⟩ := rfl
    rw [evaluated] at filled
    cases filled
    rfl
  refine ⟨fits, b, filled, start, ?_, ?_⟩
  · have slice : Flat.substrExact (String.join ["é€", "b", "c"]) false 5 2 = .ok "bc" := by
      decide +kernel
    rw [← slice]
    exact (reads 5 2 "").2.2.2.2 (by omega)
  · exact (reads 4 0 "").1.1.2 (by omega)

end Buffer

end PegFlow
