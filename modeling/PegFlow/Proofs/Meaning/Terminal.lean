/-
# PegFlow.Proofs.Meaning.Terminal -- terminals tested against a whole text

`Terminal.sizeAt` says how many octets of a text a terminal matches at an offset.
`Terminal.matchAt_agrees` compares it with the test of a buffer: the buffer gives
the same answer about every text that begins with what it shows, or says that the
text may still grow, which an open buffer alone does.
-/
import PegFlow.Machine.Step
import PegFlow.Proofs.Buffer.Flat

namespace PegFlow

set_option autoImplicit false

open Text

namespace Terminal

/-- The octets that the terminal matches at an offset of a text. -/
def sizeAt (t : Terminal) (T : String) (p : Nat) : Option Nat :=
  match t with
  | .literal text => if octets text <+: (octets T).drop p then some text.utf8ByteSize else none
  | t => (charAt? T p).bind fun c => if t.accepts c then some (charSize c) else none

theorem sizeAt_of_not_literal {t : Terminal} (h : ∀ text, t ≠ .literal text) (T : String) (p : Nat) :
    t.sizeAt T p = (charAt? T p).bind fun c => if t.accepts c then some (charSize c) else none := by
  cases t with
  | literal text => exact absurd rfl (h text)
  | charClass | any => rfl

theorem matchAt_of_not_literal {t : Terminal} (h : ∀ text, t ≠ .literal text) (b : Buffer) (p : Nat) :
    t.matchAt b p = (b.charAt p).map fun c => if t.accepts c then some (charSize c) else none := by
  cases t with
  | literal text => exact absurd rfl (h text)
  | charClass | any => cases found : b.charAt p <;> simp [matchAt, found, Except.map]

theorem matchAt_literal (text : String) (b : Buffer) (p : Nat) :
    (literal text).matchAt b p =
      (b.startsWith p text).map fun yes => if yes then some text.utf8ByteSize else none := by
  cases found : b.startsWith p text <;> simp [matchAt, found, Except.map]

/-- A match uses up input, unless it is one of the empty text. -/
theorem pos_of_sizeAt {t : Terminal} (filled : t ≠ .literal "") {T : String} {p n : Nat}
    (found : t.sizeAt T p = some n) : 0 < n := by
  by_cases h : ∃ text, t = .literal text
  · obtain ⟨text, rfl⟩ := h
    rw [sizeAt] at found
    split at found
    · cases found
      exact Nat.pos_of_ne_zero (mt String.utf8ByteSize_eq_zero_iff.1 fun empty => filled (empty ▸ rfl))
    · cases found
  · rw [sizeAt_of_not_literal fun text e => h ⟨text, e⟩] at found
    obtain ⟨c, -, taken⟩ := Option.bind_eq_some_iff.1 found
    split at taken
    · cases taken
      exact c.utf8Size_pos
    · cases taken

end Terminal

/-- Where the octets of a text begin with those of another one, the other one ends at a
boundary. -/
theorem Text.isBoundary_of_prefix {a b : String} (h : octets a <+: octets b) :
    IsBoundary b a.utf8ByteSize := by
  rw [isBoundary_iff_isValid, String.Pos.Raw.isValid_iff_isValidUTF8_extract_zero]
  obtain ⟨rest, eq⟩ := h
  have first : b.toByteArray.extract 0 a.utf8ByteSize = a.toByteArray := by
    apply ByteArray.ext
    apply Array.toList_inj.1
    have taken := congrArg (List.take a.utf8ByteSize) eq
    rw [List.take_left' (length_octets a)] at taken
    simpa [octets] using taken.symm
  refine ⟨?_, by simpa only [first] using a.isValidUTF8⟩
  have size := congrArg List.length eq
  rw [List.length_append, length_octets, length_octets] at size
  simp [String.Pos.Raw.le_iff]
  omega

namespace Terminal

/-- A match that starts at a boundary ends at one. -/
theorem isBoundary_of_sizeAt {t : Terminal} {T : String} {p n : Nat} (boundary : IsBoundary T p)
    (found : t.sizeAt T p = some n) : IsBoundary T (p + n) := by
  obtain ⟨a, b, rfl, rfl⟩ := boundary
  have later : ∀ {n}, IsBoundary b n → IsBoundary (a ++ b) (a.utf8ByteSize + n) := by
    rintro n ⟨c, d, rfl, rfl⟩
    exact ⟨a ++ c, d, String.append_assoc.symm, String.utf8ByteSize_append⟩
  apply later
  by_cases h : ∃ text, t = .literal text
  · obtain ⟨text, rfl⟩ := h
    simp only [sizeAt, octets_append] at found
    rw [List.drop_left' (length_octets a)] at found
    split at found
    · rename_i isPrefix
      cases found
      exact isBoundary_of_prefix isPrefix
    · cases found
  · rw [sizeAt_of_not_literal (fun text e => h ⟨text, e⟩), charAt?_cut] at found
    obtain ⟨c, first, taken⟩ := Option.bind_eq_some_iff.1 found
    split at taken
    · cases taken
      obtain ⟨rest, hb⟩ := List.head?_eq_some_iff.1 first
      have cut : b = String.singleton c ++ String.ofList rest := by
        rw [← String.toList_inj]
        simpa using hb
      exact ⟨String.singleton c, String.ofList rest, cut, String.utf8ByteSize_singleton⟩
    · cases taken

/-- What comes after the text so far changes no answer but that it might still grow. -/
theorem matchAt_agrees {b : Buffer} {T : String} (shows : b.Shows T) {p : Nat} (low : b.start ≤ p)
    (boundary : IsBoundary T p) {more : String} (whole : b.closed = true → more = "") (t : Terminal) :
    t.matchAt b p = .ok (t.sizeAt (T ++ more) p) ∨
      (t.matchAt b p = .error .endOfInput ∧ t.sizeAt (T ++ more) p = none) ∨
      (t.matchAt b p = .error .needInput ∧ b.closed = false) := by
  by_cases h : ∃ text, t = .literal text
  · obtain ⟨text, rfl⟩ := h
    have split : (octets (T ++ more)).drop p = (octets T).drop p ++ octets more := by
      rw [octets_append, List.drop_append_of_le_length]
      rw [length_octets]
      exact boundary.le
    rw [matchAt_literal, shows.startsWith_eq low, sizeAt, split]
    cases found : matchOctets ((octets T).drop p) (octets text) with
    | none =>
        have no : ¬ octets text <+: (octets T).drop p ++ octets more := fun yes => by
          rw [← matchOctets_eq_nil_iff, matchOctets_append, found] at yes
          cases yes
        rw [if_neg no]
        exact Or.inl rfl
    | some left =>
        cases left with
        | nil =>
            have yes : octets text <+: (octets T).drop p ++ octets more :=
              (matchOctets_eq_nil_iff.1 found).trans (List.prefix_append _ _)
            rw [if_pos yes]
            exact Or.inl rfl
        | cons w left =>
            cases isClosed : b.closed with
            | false => exact Or.inr (Or.inr ⟨rfl, rfl⟩)
            | true =>
                rw [whole isClosed]
                have no : ¬ octets text <+: (octets T).drop p ++ octets "" := fun yes => by
                  rw [← matchOctets_eq_nil_iff, matchOctets_append, found] at yes
                  cases yes
                rw [if_neg no]
                exact Or.inl rfl
  · have notLiteral : ∀ text, t ≠ .literal text := fun text e => h ⟨text, e⟩
    obtain ⟨u, v, rfl, rfl⟩ := boundary
    rw [matchAt_of_not_literal notLiteral, sizeAt_of_not_literal notLiteral, shows.charAt_eq low,
      charAt?_cut, String.append_assoc, charAt?_cut]
    by_cases none : v = ""
    · rw [none, String.append_empty, if_pos (Nat.le_refl _), Buffer.pastEnd]
      cases isClosed : b.closed with
      | false => exact Or.inr (Or.inr ⟨rfl, rfl⟩)
      | true => exact Or.inr (Or.inl ⟨rfl, by rw [whole isClosed]; rfl⟩)
    · have some_ : v.toList ≠ [] := by simpa using none
      have inside : ¬ (u ++ v).utf8ByteSize ≤ u.utf8ByteSize := by
        have := mt String.utf8ByteSize_eq_zero_iff.1 none
        rw [String.utf8ByteSize_append]
        omega
      rw [if_neg inside, String.toList_append, List.head?_append_of_ne_nil _ some_,
        List.head?_eq_some_head some_]
      exact Or.inl rfl

theorem matchAt_freed {b : Buffer} {p : Nat} (lt : p < b.start) (t : Terminal) :
    t.matchAt b p = .error (.inputFreed p b.start) := by
  have refused := Buffer.checkRetained_of_lt lt
  by_cases h : ∃ text, t = .literal text
  · obtain ⟨text, rfl⟩ := h
    rw [matchAt_literal, Buffer.startsWith, refused]
    rfl
  · rw [matchAt_of_not_literal (fun text e => h ⟨text, e⟩), Buffer.charAt, refused]
    rfl

end Terminal

end PegFlow
