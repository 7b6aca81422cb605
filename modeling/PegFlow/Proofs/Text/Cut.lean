/-
# PegFlow.Proofs.Text.Cut -- offsets as places where a text is cut in two

An offset is a boundary of a text when the text is `a ++ b` with `a` as long as
the offset. Reads at offsets are then laws about appended texts: `charAt?` gives
the first character of `b` (`charAt?_cut`), `slice?` the middle of three parts
(`slice?_cut`, `cut_between`), and a comparison of octets goes on from one part into the next
(`matchOctets_append`).
-/
import PegFlow.Text.Octets
import Mathlib.Data.List.Basic

namespace PegFlow.Text

set_option autoImplicit false

/-- A character of the text starts at the offset, or the text ends there. -/
def IsBoundary (s : String) (i : Nat) : Prop := ∃ a b : String, s = a ++ b ∧ a.utf8ByteSize = i

theorem isBoundary_iff_isValid {s : String} {i : Nat} :
    IsBoundary s i ↔ String.Pos.Raw.IsValid s ⟨i⟩ := by
  rw [String.Pos.Raw.isValid_iff_exists_append]
  constructor
  · rintro ⟨a, b, rfl, rfl⟩
    exact ⟨a, b, rfl, rfl⟩
  · rintro ⟨a, b, rfl, h⟩
    exact ⟨a, b, rfl, (congrArg String.Pos.Raw.byteIdx h).symm⟩

theorem isBoundary_zero (s : String) : IsBoundary s 0 := ⟨"", s, by simp, rfl⟩

theorem IsBoundary.le {s : String} {i : Nat} (h : IsBoundary s i) : i ≤ s.utf8ByteSize := by
  obtain ⟨a, b, rfl, rfl⟩ := h
  simp

theorem IsBoundary.append {s : String} {i : Nat} (h : IsBoundary s i) (t : String) :
    IsBoundary (s ++ t) i := by
  obtain ⟨a, b, rfl, rfl⟩ := h
  exact ⟨a, b ++ t, String.append_assoc, rfl⟩

/-- Of two ways to cut one text, the later cut cuts the second part of the earlier
one. -/
theorem append_eq_append {a b c d : String} (h : a ++ b = c ++ d)
    (le : a.utf8ByteSize ≤ c.utf8ByteSize) : ∃ m, c = a ++ m ∧ b = m ++ d := by
  have lists := congrArg String.toList h
  rw [String.toList_append, String.toList_append, List.append_eq_append_iff] at lists
  rcases lists with ⟨m, hc, hb⟩ | ⟨m, ha, hd⟩
  · exact ⟨String.ofList m, by rw [← String.toList_inj]; simpa using hc,
      by rw [← String.toList_inj]; simpa using hb⟩
  · have ha' : a = c ++ String.ofList m := by rw [← String.toList_inj]; simpa using ha
    have hd' : d = String.ofList m ++ b := by rw [← String.toList_inj]; simpa using hd
    have size := congrArg String.utf8ByteSize ha'
    rw [String.utf8ByteSize_append] at size
    have none : String.ofList m = "" := String.utf8ByteSize_eq_zero_iff.mp (by omega)
    rw [none] at ha' hd'
    exact ⟨"", by simpa using ha'.symm, by simpa using hd'.symm⟩

/-! ## Characters and slices -/

theorem pos?_cut {s a b : String} (cut : s = a ++ b) :
    ∃ p : s.Pos, s.pos? ⟨a.utf8ByteSize⟩ = some p ∧ p.Splits a b := by
  have valid : String.Pos.Raw.IsValid s ⟨a.utf8ByteSize⟩ := isBoundary_iff_isValid.1 ⟨a, b, cut, rfl⟩
  refine ⟨s.pos _ valid, ?_, cut, by simp [String.rawEndPos]⟩
  simp [String.pos?, String.pos, String.Slice.pos?, String.Slice.pos, valid]

theorem pos?_eq_none {s : String} {i : Nat} (h : ¬ IsBoundary s i) : s.pos? ⟨i⟩ = none := by
  rw [isBoundary_iff_isValid] at h
  simp [String.pos?, String.Slice.pos?, h]

theorem charAt?_cut (a b : String) : charAt? (a ++ b) a.utf8ByteSize = b.toList.head? := by
  obtain ⟨p, found, splits⟩ := pos?_cut (rfl : a ++ b = a ++ b)
  rw [charAt?, found, Option.bind_some]
  by_cases atEnd : p = (a ++ b).endPos
  · have none : b = "" := splits.eq_endPos_iff.1 atEnd
    rw [String.Pos.get?_eq_none atEnd, none]
    rfl
  · obtain ⟨rest, hb⟩ := splits.exists_eq_singleton_append atEnd
    rw [String.Pos.get?_eq_some_get atEnd]
    have first := congrArg (fun s : String => s.toList.head?) hb
    simpa using first.symm

theorem charAt?_eq_none {s : String} {i : Nat} (h : ¬ IsBoundary s i) : charAt? s i = none := by
  rw [charAt?, pos?_eq_none h, Option.bind_none]

theorem slice?_cut (a b c : String) :
    slice? (a ++ b ++ c) a.utf8ByteSize (a.utf8ByteSize + b.utf8ByteSize) = some b := by
  obtain ⟨q, foundQ, splitsQ⟩ := pos?_cut (rfl : a ++ b ++ c = a ++ b ++ c)
  obtain ⟨p, foundP, splitsP⟩ := pos?_cut (String.append_assoc : a ++ b ++ c = a ++ (b ++ c))
  rw [String.utf8ByteSize_append] at foundQ
  have bytes : (a ++ b ++ c).toByteArray = a.toByteArray ++ (b.toByteArray ++ c.toByteArray) := by
    simp [String.toByteArray_append, ByteArray.append_assoc]
  have middle : (a ++ b ++ c).extract p q = b := by
    rw [← String.toByteArray_inj, String.toByteArray_extract, splitsP.offset_eq_rawEndPos,
      splitsQ.offset_eq_rawEndPos, bytes]
    simp only [String.byteIdx_rawEndPos, String.utf8ByteSize_append]
    exact (ByteArray.extract_append_size_add (i := 0)).trans (ByteArray.extract_append_eq_left rfl)
  simp [slice?, foundP, foundQ, middle]

/-- What a text has between two offsets. -/
def between (s : String) (i j : Nat) : String := (slice? s i j).getD ""

theorem between_cut (a b c : String) :
    between (a ++ b ++ c) a.utf8ByteSize (a.utf8ByteSize + b.utf8ByteSize) = b := by
  rw [between, slice?_cut, Option.getD_some]

/-- Two boundaries cut a text in three, and what is between them is the second part. -/
theorem cut_between {s : String} {i j : Nat} (first : IsBoundary s i) (last : IsBoundary s j)
    (le : i ≤ j) : ∃ a c, s = a ++ between s i j ++ c ∧ a.utf8ByteSize = i ∧
      i + (between s i j).utf8ByteSize = j := by
  obtain ⟨a, r, cut, rfl⟩ := first
  obtain ⟨u, c, rfl, rfl⟩ := last
  obtain ⟨b, rfl, -⟩ := append_eq_append cut.symm le
  rw [String.utf8ByteSize_append, between_cut]
  exact ⟨a, c, rfl, rfl, rfl⟩

/-- What is between two boundaries stays when a text grows. -/
theorem between_append {s : String} {i j : Nat} (first : IsBoundary s i) (last : IsBoundary s j)
    (le : i ≤ j) (more : String) : between (s ++ more) i j = between s i j := by
  obtain ⟨a, c, cut, size, stop⟩ := cut_between first last le
  have whole : s ++ more = a ++ between s i j ++ (c ++ more) := by
    rw [← String.append_assoc, ← cut]
  have same := between_cut a (between s i j) (c ++ more)
  rwa [← whole, size, stop] at same

/-! ## Octets -/

theorem octets_append (a b : String) : octets (a ++ b) = octets a ++ octets b := by
  simp [octets, String.toByteArray_append]

theorem length_octets (s : String) : (octets s).length = s.utf8ByteSize := by
  simp [octets, ← String.size_toByteArray]

/-- Compare octets with wanted ones: `none` at the first difference, else the wanted
ones beyond the end. -/
def matchOctets : List UInt8 → List UInt8 → Option (List UInt8)
  | _, [] => some []
  | [], b :: rest => some (b :: rest)
  | x :: xs, b :: rest => if x = b then matchOctets xs rest else none

theorem matchFrom_eq_matchOctets (s : String) (i : Nat) (wanted : List UInt8) :
    matchFrom s i wanted = matchOctets ((octets s).drop i) wanted := by
  induction wanted generalizing i with
  | nil => cases h : (octets s).drop i <;> simp [matchFrom, matchOctets]
  | cons b rest ih =>
      by_cases inside : i < (octets s).length
      · have below : (⟨i⟩ : String.Pos.Raw) < s.rawEndPos := by
          simpa [String.Pos.Raw.lt_iff, length_octets] using inside
        have octet : s.getUTF8Byte ⟨i⟩ below = (octets s)[i] := by
          simp [String.getUTF8Byte, octets]
          rfl
        rw [List.drop_eq_getElem_cons inside, matchFrom, dif_pos below, octet, ih, matchOctets]
        exact if_congr Iff.rfl rfl rfl
      · have beyond : ¬ (⟨i⟩ : String.Pos.Raw) < s.rawEndPos := by
          simpa [String.Pos.Raw.lt_iff, length_octets] using inside
        rw [List.drop_eq_nil_of_le (by omega)]
        simp [matchFrom, matchOctets, beyond]

theorem matchOctets_append (xs ys wanted : List UInt8) :
    matchOctets (xs ++ ys) wanted = (matchOctets xs wanted).bind fun left => matchOctets ys left := by
  induction xs generalizing wanted with
  | nil => cases wanted <;> cases ys <;> simp [matchOctets]
  | cons x xs ih =>
      cases wanted with
      | nil => cases ys <;> simp [matchOctets]
      | cons b rest => by_cases h : x = b <;> simp [matchOctets, h, ih]

theorem matchOctets_nil (xs : List UInt8) : matchOctets xs [] = some [] := by
  cases xs <;> rfl

/-- Nothing is left of the wanted octets exactly when the others begin with them. -/
theorem matchOctets_eq_nil_iff {xs wanted : List UInt8} :
    matchOctets xs wanted = some [] ↔ wanted <+: xs := by
  induction xs generalizing wanted with
  | nil => cases wanted <;> simp [matchOctets]
  | cons x xs ih =>
      cases wanted with
      | nil => simp [matchOctets]
      | cons b rest =>
          by_cases h : x = b
          · simp [matchOctets, h, ih]
          · simp [matchOctets, h, List.cons_prefix_cons, Ne.symm h]

/-- Octets that are left over go on behind all the others. -/
theorem matchOctets_eq_cons_iff {xs wanted : List UInt8} {w : UInt8} {left : List UInt8} :
    matchOctets xs wanted = some (w :: left) ↔ wanted = xs ++ w :: left := by
  induction xs generalizing wanted with
  | nil => cases wanted <;> simp [matchOctets]
  | cons x xs ih =>
      cases wanted with
      | nil => simp [matchOctets]
      | cons b rest =>
          by_cases h : x = b
          · simp [matchOctets, h, ih]
          · simp [matchOctets, h, Ne.symm h]

end PegFlow.Text
