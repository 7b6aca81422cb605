/-
# PegFlow.Proofs.Text.Position -- every character moves the cursor on

The first octet of a character opens a line or a column, and no octet takes the cursor back
(`Cursor.rank_le_step`). So two places of a text with characters between them have
different lines or different columns (`Cursor.advance_octets_ne`).
-/
import PegFlow.Proofs.Buffer.Place
import PegFlow.Proofs.Text.Utf8
import Mathlib.Data.Prod.Lex

namespace PegFlow

set_option autoImplicit false

open Text

namespace Text

theorem isContinuation_iff (b : UInt8) : isContinuation b = true ↔ Utf8.Continues b := by
  have all : ∀ i : Fin 256, isContinuation (.ofNat i) = decide (0x80 ≤ i.val ∧ i.val < 0xC0) := by
    decide +kernel
  have octet := all ⟨b.toNat, b.toNat_lt⟩
  rw [UInt8.ofNat_toNat] at octet
  rw [octet, decide_eq_true_iff, Utf8.Continues]

/-- The first octet of a character continues none. -/
theorem Utf8.Spells.first {n : Nat} {u : List UInt8} (spells : Spells n u) :
    ∃ b rest, u = b :: rest ∧ isContinuation b = false := by
  suffices h : ∃ b rest, u = b :: rest ∧ (b.toNat < 0x80 ∨ 0xC2 ≤ b.toNat) by
    obtain ⟨b, rest, rfl, first⟩ := h
    refine ⟨b, rest, rfl, ?_⟩
    rw [← Bool.not_eq_true, isContinuation_iff, Continues]
    omega
  cases spells with
  | one first => exact ⟨_, _, rfl, Or.inl first⟩
  | two first => exact ⟨_, _, rfl, Or.inr first.1⟩
  | three first => exact ⟨_, _, rfl, Or.inr (by omega)⟩
  | four first => exact ⟨_, _, rfl, Or.inr (by omega)⟩

end Text

namespace Cursor

/-- Cursors in the order of the places they stand at. -/
def rank (c : Cursor) : ℕ ×ₗ ℕ := toLex (c.lines, c.column)

theorem rank_lt_step (c : Cursor) {b : UInt8} (first : isContinuation b = false) :
    c.rank < (c.step b).rank := by
  rw [step]
  split
  · exact Prod.Lex.toLex_lt_toLex.2 (Or.inl (Nat.lt_succ_self _))
  · rw [first]
    exact Prod.Lex.toLex_lt_toLex.2 (Or.inr ⟨rfl, Nat.lt_succ_self _⟩)

theorem rank_le_step (c : Cursor) (b : UInt8) : c.rank ≤ (c.step b).rank := by
  cases continues : isContinuation b with
  | false => exact (c.rank_lt_step continues).le
  | true =>
      rw [step]
      split
      · exact Prod.Lex.toLex_le_toLex.2 (Or.inl (Nat.lt_succ_self _))
      · exact le_refl _

theorem rank_le_advance (c : Cursor) (bs : List UInt8) : c.rank ≤ (c.advance bs).rank := by
  induction bs generalizing c with
  | nil => exact le_refl _
  | cons b bs ih => exact (c.rank_le_step b).trans (ih (c.step b))

/-- A text that is not empty leads to another place. -/
theorem advance_octets_ne (c : Cursor) {m : String} (some : m ≠ "") : c.advance (octets m) ≠ c := by
  obtain ⟨d, ds, chars⟩ : ∃ d ds, m.toList = d :: ds := by
    cases chars : m.toList with
    | nil => exact (some (String.toList_eq_nil_iff.1 chars)).elim
    | cons d ds => exact ⟨d, ds, rfl⟩
  obtain ⟨b, bs, octets_eq, first⟩ := (Utf8.spells_octets d).first
  have lt : c.rank < (c.advance (octets m)).rank := by
    rw [← String.ofList_toList (s := m), chars, Utf8.octets_ofList_cons, octets_eq]
    exact (c.rank_lt_step first).trans_le ((c.step b).rank_le_advance _)
  intro same
  rw [same] at lt
  exact lt_irrefl _ lt

end Cursor

/-- A longer text ends at another place. -/
theorem Buffer.cursorAt_end_ne {P m : String} (some : m ≠ "") :
    cursorAt (P ++ m) (P ++ m).utf8ByteSize ≠ cursorAt P P.utf8ByteSize := by
  have whole (T : String) : cursorAt T T.utf8ByteSize = Cursor.start.advance (octets T) := by
    rw [cursorAt, ← length_octets, List.take_length]
  rw [whole, whole, octets_append, Cursor.advance_append]
  exact Cursor.advance_octets_ne _ some

/-- The position of an offset of a text. -/
theorem SourcePosition.ofOffset_eq {T : String} {p : Nat} (le : p ≤ T.utf8ByteSize) :
    ofOffset T p = ⟨p, (Buffer.cursorAt T p).lines + 1, (Buffer.cursorAt T p).column + 1⟩ := by
  simp only [ofOffset, Nat.min_eq_left le]
  rfl

end PegFlow
