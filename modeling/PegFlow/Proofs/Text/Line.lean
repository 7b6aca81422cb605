/-
# PegFlow.Proofs.Text.Line -- lines of a text

`LineAt T p before line` says which line of `T` is around an offset: `before` ends where the
line opens, and the line ends where the text does or at a line feed. Each offset of a text is
in a line (`exists_lineAt`).

In octets, a line is what lies between two line feeds: reading back from the offset stops
where the line opens (`LineAt.back`), and reading on stops where it ends (`LineAt.on`). The
cursor counts the line feeds, and the characters that begin behind the last one
(`Cursor.advance_eq_counts`).
-/
import PegFlow.Proofs.Text.Position
import Mathlib.Data.List.Induction

namespace PegFlow

set_option autoImplicit false

open Text

namespace Text

/-! ## Line feeds in octets -/

theorem octets_lineFeed : octets "\n" = [newline] := rfl

/-- An octet below 80 is a character of its own. -/
theorem Utf8.Spells.eq_of_mem {n : Nat} {u : List UInt8} (spells : Spells n u) {b : UInt8} (mem : b ∈ u)
    (low : b.toNat < 0x80) : n = b.toNat := by
  cases spells with
  | one first => rw [List.mem_singleton.1 mem]
  | two first second =>
      obtain ⟨second, -⟩ := second
      simp only [List.mem_cons, List.not_mem_nil, or_false] at mem
      rcases mem with rfl | rfl <;> omega
  | three first second third =>
      obtain ⟨⟨second, -⟩, ⟨third, -⟩⟩ := And.intro second third
      simp only [List.mem_cons, List.not_mem_nil, or_false] at mem
      rcases mem with rfl | rfl | rfl <;> omega
  | four first second third fourth =>
      obtain ⟨⟨second, -⟩, ⟨third, -⟩, ⟨fourth, -⟩⟩ := And.intro second (And.intro third fourth)
      simp only [List.mem_cons, List.not_mem_nil, or_false] at mem
      rcases mem with rfl | rfl | rfl | rfl <;> omega

theorem newline_notMem_octets {s : String} (unbroken : '\n' ∉ s.toList) : newline ∉ octets s := by
  rw [← String.ofList_toList (s := s)]
  generalize s.toList = cs at unbroken
  induction cs with
  | nil => simp [octets]
  | cons c cs ih =>
      rw [List.mem_cons, not_or] at unbroken
      rw [Utf8.octets_ofList_cons, List.mem_append, not_or]
      refine ⟨fun mem => unbroken.1 ?_, ih unbroken.2⟩
      exact (Char.toNat_inj.1 ((Utf8.spells_octets c).eq_of_mem mem (by decide))).symm

/-! ## The line around an offset -/

/-- A line opens where the text ends. -/
def OpensLine (before : String) : Prop := before = "" ∨ ∃ earlier, before = earlier ++ "\n"

/-- A line ends where the text begins. -/
def EndsLine (after : String) : Prop := after = "" ∨ ∃ rest, after = "\n" ++ rest

/-- `line` is the line of `T` around the offset `p`, and `before` all the text in front of it.
The offset of a line feed is in the line that it ends. -/
structure LineAt (T : String) (p : Nat) (before line : String) : Prop where
  text : ∃ after, T = before ++ line ++ after ∧ EndsLine after
  opens : OpensLine before
  unbroken : '\n' ∉ line.toList
  low : before.utf8ByteSize ≤ p
  high : p ≤ before.utf8ByteSize + line.utf8ByteSize

theorem LineAt.cons_lineFeed {T : String} {p : Nat} {before line : String} (at_ : LineAt T p before line) :
    LineAt ("\n" ++ T) (p + 1) ("\n" ++ before) line := by
  obtain ⟨⟨after, rfl, ends⟩, opens, unbroken, low, high⟩ := at_
  have size : ("\n" ++ before).utf8ByteSize = before.utf8ByteSize + 1 := by
    rw [String.utf8ByteSize_append, Nat.add_comm]
    rfl
  refine ⟨⟨after, by simp only [String.append_assoc], ends⟩, Or.inr ?_, unbroken, by omega, by omega⟩
  rcases opens with rfl | ⟨earlier, rfl⟩
  · exact ⟨"", rfl⟩
  · exact ⟨"\n" ++ earlier, by rw [String.append_assoc]⟩

/-- A character in front of a text opens its first line, or leaves the line of an offset as it
is. -/
theorem LineAt.cons {T : String} {p : Nat} {before line : String} {c : Char} (ne : c ≠ '\n')
    (at_ : LineAt T (p - c.utf8Size) before line) :
    ∃ before line, LineAt (String.singleton c ++ T) p before line := by
  obtain ⟨⟨after, rfl, ends⟩, opens, unbroken, low, high⟩ := at_
  have size (s : String) : (String.singleton c ++ s).utf8ByteSize = c.utf8Size + s.utf8ByteSize := by
    rw [String.utf8ByteSize_append, String.utf8ByteSize_singleton]
  rcases opens with rfl | ⟨earlier, rfl⟩
  · refine ⟨"", String.singleton c ++ line, ⟨after, by simp [String.append_assoc], ends⟩, Or.inl rfl, ?_,
      Nat.zero_le p, ?_⟩
    · rw [String.toList_append, String.toList_singleton, List.singleton_append, List.mem_cons, not_or]
      exact ⟨Ne.symm ne, unbroken⟩
    · rw [size]
      rw [String.utf8ByteSize_empty] at high ⊢
      omega
  · have feed : "\n".utf8ByteSize = 1 := rfl
    rw [String.utf8ByteSize_append] at low high
    refine ⟨String.singleton c ++ (earlier ++ "\n"), line, ⟨after, by simp only [String.append_assoc], ends⟩,
      Or.inr ⟨String.singleton c ++ earlier, by rw [String.append_assoc]⟩, unbroken, ?_, ?_⟩ <;>
    · rw [size, String.utf8ByteSize_append]
      omega

/-- Each offset of a text is in a line, by induction on the characters of the text. -/
theorem exists_lineAt {T : String} {p : Nat} (le : p ≤ T.utf8ByteSize) :
    ∃ before line, LineAt T p before line := by
  rw [← String.ofList_toList (s := T)] at le ⊢
  generalize T.toList = cs at le
  induction cs generalizing p with
  | nil => exact ⟨"", "", ⟨"", rfl, Or.inl rfl⟩, Or.inl rfl, by simp, Nat.zero_le p, by simpa using le⟩
  | cons c cs ih =>
      have split : String.ofList (c :: cs) = String.singleton c ++ String.ofList cs := by
        rw [← String.toList_inj]
        simp
      rw [split] at le ⊢
      rw [String.utf8ByteSize_append, String.utf8ByteSize_singleton] at le
      by_cases feed : c = '\n'
      · subst feed
        have one : ('\n' : Char).utf8Size = 1 := rfl
        cases p with
        | zero => exact ⟨"", "", ⟨_, rfl, Or.inr ⟨String.ofList cs, rfl⟩⟩, Or.inl rfl, by simp, Nat.le_refl 0,
            Nat.zero_le _⟩
        | succ p =>
            obtain ⟨before, line, at_⟩ := ih (p := p) (by omega)
            exact ⟨_, line, at_.cons_lineFeed⟩
      · obtain ⟨before, line, at_⟩ := ih (p := p - c.utf8Size) (by omega)
        exact at_.cons feed

/-! ## Looking for a line -/

/-- Where a line opens, nothing in front of it is looked at. -/
theorem takeWhile_back {before : String} (opens : OpensLine before)
    {bs : List UInt8} (unbroken : newline ∉ bs) :
    (octets before ++ bs).reverse.takeWhile (· ≠ newline) = bs.reverse := by
  have all : ∀ b ∈ bs.reverse, decide (b ≠ newline) = true := by
    intro b mem
    exact decide_eq_true (fun eq => unbroken (eq ▸ List.mem_reverse.1 mem))
  rw [List.reverse_append, List.takeWhile_append_of_pos all]
  rcases opens with rfl | ⟨earlier, rfl⟩
  · simp [octets]
  · simp [octets_append, octets_lineFeed]

/-- Where a line ends, nothing behind it is looked at. -/
theorem takeWhile_on {after : String} (ends : EndsLine after)
    {bs : List UInt8} (unbroken : newline ∉ bs) :
    (bs ++ octets after).takeWhile (· ≠ newline) = bs := by
  have all : ∀ b ∈ bs, decide (b ≠ newline) = true := by
    intro b mem
    exact decide_eq_true (fun eq => unbroken (eq ▸ mem))
  rw [List.takeWhile_append_of_pos all]
  rcases ends with rfl | ⟨rest, rfl⟩
  · simp [octets]
  · simp [octets_append, octets_lineFeed]

namespace LineAt

variable {T before line : String} {p : Nat}

/-- Reading back from an offset stops where its line opens. -/
theorem back (at_ : LineAt T p before line) : ((octets T).take p).reverse.takeWhile (· ≠ newline) =
    ((octets line).take (p - before.utf8ByteSize)).reverse := by
  obtain ⟨⟨after, rfl, ends⟩, opens, unbroken, low, high⟩ := at_
  have taken : (octets (before ++ line ++ after)).take p =
      octets before ++ (octets line).take (p - before.utf8ByteSize) := by
    rw [octets_append, octets_append, List.take_append_of_le_length, List.take_append,
      List.take_of_length_le (l := octets before), length_octets]
    · rwa [length_octets]
    · rwa [List.length_append, length_octets, length_octets]
  rw [taken]
  exact takeWhile_back opens fun mem => newline_notMem_octets unbroken (List.mem_of_mem_take mem)

/-- Reading on from an offset stops where its line ends. -/
theorem on (at_ : LineAt T p before line) : ((octets T).drop p).takeWhile (· ≠ newline) =
    (octets line).drop (p - before.utf8ByteSize) := by
  obtain ⟨⟨after, rfl, ends⟩, opens, unbroken, low, high⟩ := at_
  have dropped : (octets (before ++ line ++ after)).drop p =
      (octets line).drop (p - before.utf8ByteSize) ++ octets after := by
    rw [String.append_assoc, octets_append, octets_append, List.drop_append,
      List.drop_eq_nil_of_le (by rwa [length_octets]), List.nil_append,
      List.drop_append_of_le_length, length_octets]
    rw [length_octets, length_octets]
    omega
  rw [dropped]
  exact takeWhile_on ends fun mem => newline_notMem_octets unbroken (List.mem_of_mem_drop mem)

/-- The line around an offset of a text, when what is in front of the line is let go. -/
theorem behind {gone R : String} (at_ : LineAt (gone ++ R) p before line)
    (le : gone.utf8ByteSize ≤ before.utf8ByteSize) :
    ∃ m, before = gone ++ m ∧ LineAt R (p - gone.utf8ByteSize) m line := by
  obtain ⟨⟨after, text, ends⟩, opens, unbroken, low, high⟩ := at_
  rw [String.append_assoc] at text
  obtain ⟨m, rfl, rfl⟩ := append_eq_append text le
  rw [String.utf8ByteSize_append] at low high
  refine ⟨m, rfl, ⟨after, String.append_assoc.symm, ends⟩, ?_, unbroken, by omega, by omega⟩
  by_cases none : m = ""
  · exact Or.inl none
  · rcases opens with empty | ⟨earlier, eq⟩
    · rw [String.append_eq_empty_iff] at empty
      exact Or.inl empty.2
    · have small : gone.utf8ByteSize ≤ earlier.utf8ByteSize := by
        have sizes := congrArg String.utf8ByteSize eq
        have filled := mt String.utf8ByteSize_eq_zero_iff.1 none
        rw [String.utf8ByteSize_append, String.utf8ByteSize_append] at sizes
        have feed : "\n".utf8ByteSize = 1 := rfl
        omega
      obtain ⟨k, -, rfl⟩ := append_eq_append eq small
      exact Or.inr ⟨k, rfl⟩

/-- The line around an offset of a text, when its beginning is let go. -/
theorem across {gone R : String} (at_ : LineAt (gone ++ R) p before line) (lt : before.utf8ByteSize < gone.utf8ByteSize)
    (le : gone.utf8ByteSize ≤ p) :
    ∃ m k, gone = before ++ m ∧ m ≠ "" ∧ line = m ++ k ∧ LineAt R (p - gone.utf8ByteSize) "" k := by
  obtain ⟨⟨after, text, ends⟩, opens, unbroken, low, high⟩ := at_
  rw [String.append_assoc] at text
  obtain ⟨m, rfl, right⟩ := append_eq_append text.symm (Nat.le_of_lt lt)
  rw [String.utf8ByteSize_append] at lt le
  obtain ⟨k, rfl, rfl⟩ := append_eq_append right.symm (by omega)
  rw [String.utf8ByteSize_append] at high
  refine ⟨m, k, rfl, ?_, rfl, ⟨after, by simp, ends⟩, Or.inl rfl, ?_, by simp, ?_⟩
  · rintro rfl
    simp at lt
  · rw [String.toList_append, List.mem_append, not_or] at unbroken
    exact unbroken.2
  · rw [String.utf8ByteSize_append, String.utf8ByteSize_empty]
    omega

end LineAt

end Text

/-! ## Counting -/

/-- The cursor after octets from the start: how many line feeds there are, and how many
characters begin behind the last one. -/
theorem Cursor.advance_eq_counts (bs : List UInt8) :
    start.advance bs = ⟨bs.count newline,
      (bs.reverse.takeWhile (· ≠ newline)).countP fun b => !isContinuation b⟩ := by
  induction bs using List.reverseRecOn with
  | nil => rfl
  | append_singleton bs b ih =>
      rw [advance_append, ih, List.count_append, List.reverse_append]
      change step _ b = _
      rw [step]
      by_cases feed : b = newline
      · subst feed
        simp
      · cases continues : isContinuation b <;> simp [feed, continues]

/-- Where a line opens, no character of it has gone by. -/
theorem Cursor.column_of_opens {before : String} (opens : OpensLine before) :
    (start.advance (octets before)).column = 0 := by
  have none : (octets before ++ []).reverse.takeWhile (· ≠ newline) = [] :=
    takeWhile_back opens List.not_mem_nil
  rw [List.append_nil] at none
  rw [advance_eq_counts, none]
  rfl

/-- Inside a line, some character of it has gone by. -/
theorem Cursor.column_pos {before m : String} (opens : OpensLine before)
    (unbroken : '\n' ∉ m.toList) (some : m ≠ "") : 0 < (start.advance (octets (before ++ m))).column := by
  rw [octets_append, advance_eq_counts, takeWhile_back opens (newline_notMem_octets unbroken),
    List.countP_pos_iff]
  obtain ⟨d, ds, chars⟩ := List.exists_cons_of_ne_nil (mt String.toList_eq_nil_iff.1 some)
  obtain ⟨b, bs, octets_eq, first⟩ := (Utf8.spells_octets d).first
  refine ⟨b, ?_, by rw [first]; rfl⟩
  rw [List.mem_reverse, ← String.ofList_toList (s := m), chars, Utf8.octets_ofList_cons, octets_eq]
  exact List.mem_append_left _ (List.mem_cons_self ..)

end PegFlow
