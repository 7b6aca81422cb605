/-
# PegFlow.Text.Utf8 — reading octets as text

`decode` reads as many whole characters as the octets hold from their start and
says why it stopped: at the end, before a character whose last octets are still
to come, or before octets that no text contains. In the last case the number
of octets to blame is that of the longest beginning of some character found
there, and at least one.

What may follow a first octet is one table, `lead`: how many octets continue
the character, and the range of the first of them, which excludes overlong
forms, surrogates and code points above U+10FFFF. Further octets lie in
80 to BF.
-/
import PegFlow.Text.Octets

namespace PegFlow.Text.Utf8

set_option autoImplicit false

/-- How a reading ends. -/
inductive Ending where
  /-- All octets were read. -/
  | complete
  /-- The octets stop inside a character. -/
  | cut
  /-- The next `size` octets begin no character. -/
  | invalid (size : Nat)
deriving DecidableEq, Repr

/-- What a first octet calls for: the number of further octets, and the least
and greatest value of the next one. -/
def lead (b : UInt8) : Option (Nat × UInt8 × UInt8) :=
  if b < 0x80 then some (0, 0x80, 0xBF)
  else if b < 0xC2 then none
  else if b ≤ 0xDF then some (1, 0x80, 0xBF)
  else if b = 0xE0 then some (2, 0xA0, 0xBF)
  else if b = 0xED then some (2, 0x80, 0x9F)
  else if b ≤ 0xEF then some (2, 0x80, 0xBF)
  else if b = 0xF0 then some (3, 0x90, 0xBF)
  else if b ≤ 0xF3 then some (3, 0x80, 0xBF)
  else if b = 0xF4 then some (3, 0x80, 0x8F)
  else none

/-- Octets of a character after its first: `owed` of them, the next one between
`lo` and `hi`. `seen` octets of the character came before. The answer is the
code point built on `code`, or how the character breaks off. -/
def tail : Nat → UInt8 → UInt8 → Nat → Nat → List UInt8 → Except Ending (Nat × List UInt8)
  | 0, _, _, _, code, rest => .ok (code, rest)
  | _ + 1, _, _, _, _, [] => .error .cut
  | owed + 1, lo, hi, seen, code, b :: rest =>
    if lo ≤ b ∧ b ≤ hi then
      tail owed 0x80 0xBF (seen + 1) (code * 64 + (b &&& 0x3F).toNat) rest
    else .error (.invalid seen)

/-- The bits of a first octet that belong to the code point, `more` octets
following it. -/
def leadBits (b : UInt8) : Nat → Nat
  | 0 => b.toNat
  | 1 => (b &&& 0x1F).toNat
  | 2 => (b &&& 0x0F).toNat
  | _ => (b &&& 0x07).toNat

/-- The first character of the octets and the octets after it. -/
def character : List UInt8 → Except Ending (Char × List UInt8)
  | [] => .error .complete
  | b :: rest =>
    match lead b with
    | none => .error (.invalid 1)
    | some (more, lo, hi) =>
      match tail more lo hi 1 (leadBits b more) rest with
      | .error e => .error e
      | .ok (code, rest) => .ok (Char.ofNat code, rest)

/-- The octets after those of a character are fewer. -/
theorem length_tail {owed : Nat} {lo hi : UInt8} {seen code : Nat} {bs : List UInt8}
    {answer : Nat × List UInt8} (h : tail owed lo hi seen code bs = .ok answer) :
    answer.2.length ≤ bs.length := by
  induction bs generalizing owed lo hi seen code with
  | nil => cases owed <;> simp [tail] at h; subst h; simp
  | cons b rest ih =>
    cases owed with
    | zero => simp [tail] at h; subst h; simp
    | succ owed =>
      simp only [tail] at h
      split at h
      · have := ih h; simp; omega
      · simp at h

theorem length_character {bs : List UInt8} {c : Char} {rest : List UInt8}
    (h : character bs = .ok (c, rest)) : rest.length < bs.length := by
  cases bs with
  | nil => simp [character] at h
  | cons b bs =>
    simp only [character] at h
    split at h
    · simp at h
    · split at h
      · simp at h
      · rename_i heq
        have := length_tail heq
        simp only [Except.ok.injEq, Prod.mk.injEq] at h
        obtain ⟨-, rfl⟩ := h
        simp only [List.length_cons]
        simp only at this
        omega

/-- The characters at the start of the octets, the octets left over, and why
the reading stops there. -/
def decode (bs : List UInt8) : List Char × List UInt8 × Ending :=
  match _h : character bs with
  | .error e => ([], bs, e)
  | .ok (c, rest) =>
    let (cs, left, e) := decode rest
    (c :: cs, left, e)
termination_by bs.length
decreasing_by exact length_character _h

end PegFlow.Text.Utf8
