/-
# PegFlow.Proofs.Text.Utf8 -- reading octets against the octets of texts

`Spells` lists the well-formed octet sequences of code points. A reading takes such a
sequence off the front exactly when there is one (`character_eq_ok_iff`), which is the
sequence that the text of that one character has. So the octets of a text are read as the
text (`decode_octets`), what was read and what is left make up the octets (`decode_eq`),
and reading may stop between any two octets and go on later, unless it has met octets that
no text contains (`decode_append`). What is read, `readable`, is the longest text that the
octets begin with (`octets_isPrefix_iff`).
-/
import PegFlow.Proofs.Text.Cut
import PegFlow.Text.Utf8

namespace PegFlow.Text.Utf8

set_option autoImplicit false

/-! ## Characters -/

/-- An octet after the first of a character. -/
def Continues (b : UInt8) : Prop := 0x80 ≤ b.toNat ∧ b.toNat < 0xC0

/-- The octets of a code point: no overlong form, no surrogate, nothing above U+10FFFF. -/
inductive Spells : Nat → List UInt8 → Prop where
  | one {b : UInt8} (first : b.toNat < 0x80) : Spells b.toNat [b]
  | two {b b₁ : UInt8} (first : 0xC2 ≤ b.toNat ∧ b.toNat < 0xE0) (second : Continues b₁) :
      Spells (b.toNat % 32 * 64 + b₁.toNat % 64) [b, b₁]
  | three {b b₁ b₂ : UInt8} (first : 0xE0 ≤ b.toNat ∧ b.toNat < 0xF0) (second : Continues b₁)
      (third : Continues b₂) (least : b.toNat = 0xE0 → 0xA0 ≤ b₁.toNat)
      (greatest : b.toNat = 0xED → b₁.toNat < 0xA0) :
      Spells ((b.toNat % 16 * 64 + b₁.toNat % 64) * 64 + b₂.toNat % 64) [b, b₁, b₂]
  | four {b b₁ b₂ b₃ : UInt8} (first : 0xF0 ≤ b.toNat ∧ b.toNat < 0xF5) (second : Continues b₁)
      (third : Continues b₂) (fourth : Continues b₃) (least : b.toNat = 0xF0 → 0x90 ≤ b₁.toNat)
      (greatest : b.toNat = 0xF4 → b₁.toNat < 0x90) :
      Spells (((b.toNat % 8 * 64 + b₁.toNat % 64) * 64 + b₂.toNat % 64) * 64 + b₃.toNat % 64) [b, b₁, b₂, b₃]

theorem toNat_and_low (b : UInt8) : (b &&& 0x3F).toNat = b.toNat % 64 ∧ (b &&& 0x1F).toNat = b.toNat % 32 ∧
    (b &&& 0x0F).toNat = b.toNat % 16 ∧ (b &&& 0x07).toNat = b.toNat % 8 := by
  refine ⟨?_, ?_, ?_, ?_⟩ <;> rw [UInt8.toNat_and]
  · exact Nat.and_two_pow_sub_one_eq_mod _ 6
  · exact Nat.and_two_pow_sub_one_eq_mod _ 5
  · exact Nat.and_two_pow_sub_one_eq_mod _ 4
  · exact Nat.and_two_pow_sub_one_eq_mod _ 3

/-- What a first octet calls for, in numbers. -/
def Calls (n : Nat) : Option (Nat × UInt8 × UInt8) → Prop
  | none => (0x80 ≤ n ∧ n < 0xC2) ∨ 0xF4 < n
  | some (0, _, _) => n < 0x80
  | some (1, lo, hi) => (0xC2 ≤ n ∧ n < 0xE0) ∧ lo.toNat = 0x80 ∧ hi.toNat = 0xBF
  | some (2, lo, hi) => (0xE0 ≤ n ∧ n < 0xF0) ∧
      (n = 0xE0 ∧ lo.toNat = 0xA0 ∨ n ≠ 0xE0 ∧ lo.toNat = 0x80) ∧
      (n = 0xED ∧ hi.toNat = 0x9F ∨ n ≠ 0xED ∧ hi.toNat = 0xBF)
  | some (3, lo, hi) => (0xF0 ≤ n ∧ n < 0xF5) ∧
      (n = 0xF0 ∧ lo.toNat = 0x90 ∨ n ≠ 0xF0 ∧ lo.toNat = 0x80) ∧
      (n = 0xF4 ∧ hi.toNat = 0x8F ∨ n ≠ 0xF4 ∧ hi.toNat = 0xBF)
  | some _ => False

theorem lead_calls (b : UInt8) : Calls b.toNat (lead b) := by
  simp only [lead, UInt8.lt_iff_toNat_lt, UInt8.le_iff_toNat_le, ← UInt8.toNat_inj]
  repeat' split
  all_goals simp_all [Calls]
  all_goals omega

theorem exists_lead {b : UInt8} {more : Nat}
    (first : b.toNat < 0x80 ∧ more = 0 ∨ (0xC2 ≤ b.toNat ∧ b.toNat < 0xE0) ∧ more = 1 ∨
      (0xE0 ≤ b.toNat ∧ b.toNat < 0xF0) ∧ more = 2 ∨ (0xF0 ≤ b.toNat ∧ b.toNat < 0xF5) ∧ more = 3) :
    ∃ lo hi, lead b = some (more, lo, hi) ∧ Calls b.toNat (some (more, lo, hi)) := by
  have calls := lead_calls b
  cases found : lead b with
  | none =>
      rw [found] at calls
      simp only [Calls] at calls
      omega
  | some called =>
      obtain ⟨n, lo, hi⟩ := called
      rw [found] at calls
      have same : n = more := by
        match n, calls with
        | 0, calls => simp only [Calls] at calls; omega
        | 1, calls => simp only [Calls] at calls; omega
        | 2, calls => simp only [Calls] at calls; omega
        | 3, calls => simp only [Calls] at calls; omega
      subst same
      exact ⟨lo, hi, rfl, calls⟩

theorem leadBits_eq (b : UInt8) : leadBits b 0 = b.toNat ∧ leadBits b 1 = b.toNat % 32 ∧
    leadBits b 2 = b.toNat % 16 ∧ leadBits b 3 = b.toNat % 8 :=
  ⟨rfl, (toNat_and_low b).2⟩

theorem tail_zero (lo hi : UInt8) (seen code : Nat) (bs : List UInt8) :
    tail 0 lo hi seen code bs = .ok (code, bs) := by
  cases bs <;> rfl

theorem tail_cons {owed : Nat} {lo hi : UInt8} {seen code : Nat} {b : UInt8} {bs : List UInt8}
    (above : lo.toNat ≤ b.toNat) (below : b.toNat ≤ hi.toNat) : tail (owed + 1) lo hi seen code (b :: bs) =
      tail owed 0x80 0xBF (seen + 1) (code * 64 + b.toNat % 64) bs := by
  rw [tail, if_pos ⟨UInt8.le_iff_toNat_le.2 above, UInt8.le_iff_toNat_le.2 below⟩, (toNat_and_low b).1]

theorem tail_next {owed seen code : Nat} {b : UInt8} {bs : List UInt8} (h : Continues b) :
    tail (owed + 1) 0x80 0xBF seen code (b :: bs) =
      tail owed 0x80 0xBF (seen + 1) (code * 64 + b.toNat % 64) bs :=
  tail_cons h.1 (Nat.le_of_lt_succ h.2)

/-- A further octet that was read. -/
theorem tail_succ_ok {owed : Nat} {lo hi : UInt8} {seen code : Nat} {bs : List UInt8} {x : Nat × List UInt8}
    (h : tail (owed + 1) lo hi seen code bs = .ok x) : ∃ b bs', bs = b :: bs' ∧
      (lo.toNat ≤ b.toNat ∧ b.toNat ≤ hi.toNat) ∧
      tail owed 0x80 0xBF (seen + 1) (code * 64 + b.toNat % 64) bs' = .ok x := by
  cases bs with
  | nil => cases h
  | cons b bs =>
      simp only [tail, (toNat_and_low b).1] at h
      split at h
      · rename_i within
        exact ⟨b, bs, rfl, ⟨UInt8.le_iff_toNat_le.1 within.1, UInt8.le_iff_toNat_le.1 within.2⟩, h⟩
      · cases h

theorem tail_next_ok {owed seen code : Nat} {bs : List UInt8} {x : Nat × List UInt8}
    (h : tail (owed + 1) 0x80 0xBF seen code bs = .ok x) : ∃ b bs', bs = b :: bs' ∧ Continues b ∧
      tail owed 0x80 0xBF (seen + 1) (code * 64 + b.toNat % 64) bs' = .ok x := by
  obtain ⟨b, bs', eq, within, next⟩ := tail_succ_ok h
  exact ⟨b, bs', eq, ⟨within.1, Nat.lt_succ_of_le within.2⟩, next⟩

theorem character_cons {b : UInt8} {bs rest : List UInt8} {more code : Nat} {lo hi : UInt8}
    (found : lead b = some (more, lo, hi)) (read : tail more lo hi 1 (leadBits b more) bs = .ok (code, rest)) :
    character (b :: bs) = .ok (Char.ofNat code, rest) := by
  simp only [character, found, read]

theorem Spells.character {n : Nat} {u : List UInt8} (spells : Spells n u) (rest : List UInt8) :
    character (u ++ rest) = .ok (Char.ofNat n, rest) := by
  cases spells with
  | @one b first =>
      obtain ⟨lo, hi, found, -⟩ := exists_lead (Or.inl ⟨first, rfl⟩)
      exact character_cons found (tail_zero ..)
  | @two b b₁ first second =>
      obtain ⟨lo, hi, found, -, least, greatest⟩ := exists_lead (Or.inr (Or.inl ⟨first, rfl⟩))
      unfold Continues at second
      refine character_cons found (?_ : tail 1 lo hi 1 _ (b₁ :: rest) = _)
      rw [tail_cons (by omega) (by omega), tail_zero, (leadBits_eq b).2.1]
  | @three b b₁ b₂ first second third above below =>
      obtain ⟨lo, hi, found, -, least, greatest⟩ := exists_lead (Or.inr (Or.inr (Or.inl ⟨first, rfl⟩)))
      unfold Continues at second
      refine character_cons found (?_ : tail 2 lo hi 1 _ (b₁ :: b₂ :: rest) = _)
      rw [tail_cons (by omega) (by omega), tail_next third, tail_zero, (leadBits_eq b).2.2.1]
  | @four b b₁ b₂ b₃ first second third fourth above below =>
      obtain ⟨lo, hi, found, -, least, greatest⟩ := exists_lead (Or.inr (Or.inr (Or.inr ⟨first, rfl⟩)))
      unfold Continues at second
      refine character_cons found (?_ : tail 3 lo hi 1 _ (b₁ :: b₂ :: b₃ :: rest) = _)
      rw [tail_cons (by omega) (by omega), tail_next third, tail_next fourth, tail_zero, (leadBits_eq b).2.2.2]

/-- The continuations that a first octet calls for spell a code with it. -/
theorem spells_of_tail {b lo hi : UInt8} {bs rest : List UInt8} {code : Nat} : ∀ {more : Nat},
    Calls b.toNat (some (more, lo, hi)) → tail more lo hi 1 (leadBits b more) bs = .ok (code, rest) →
      ∃ u, Spells code u ∧ b :: bs = u ++ rest
  | 0, first, read => by
      rw [tail_zero] at read
      cases read
      exact ⟨[b], .one first, rfl⟩
  | 1, ⟨first, least, greatest⟩, read => by
      obtain ⟨b₁, bs, rfl, second, read⟩ := tail_succ_ok read
      rw [tail_zero, (leadBits_eq b).2.1] at read
      cases read
      exact ⟨[b, b₁], .two first (by unfold Continues; omega), rfl⟩
  | 2, ⟨first, least, greatest⟩, read => by
      obtain ⟨b₁, bs, rfl, second, read⟩ := tail_succ_ok read
      obtain ⟨b₂, bs, rfl, third, read⟩ := tail_next_ok read
      rw [tail_zero, (leadBits_eq b).2.2.1] at read
      cases read
      exact ⟨[b, b₁, b₂], .three first (by unfold Continues; omega) third (by omega) (by omega), rfl⟩
  | 3, ⟨first, least, greatest⟩, read => by
      obtain ⟨b₁, bs, rfl, second, read⟩ := tail_succ_ok read
      obtain ⟨b₂, bs, rfl, third, read⟩ := tail_next_ok read
      obtain ⟨b₃, bs, rfl, fourth, read⟩ := tail_next_ok read
      rw [tail_zero, (leadBits_eq b).2.2.2] at read
      cases read
      exact ⟨[b, b₁, b₂, b₃], .four first (by unfold Continues; omega) third fourth (by omega) (by omega), rfl⟩

theorem spells_of_character {bs rest : List UInt8} {c : Char} (h : character bs = .ok (c, rest)) :
    ∃ n u, Spells n u ∧ c = Char.ofNat n ∧ bs = u ++ rest := by
  cases bs with
  | nil => cases h
  | cons b bs =>
      have calls := lead_calls b
      simp only [Utf8.character] at h
      split at h
      · cases h
      · rename_i more lo hi found
        rw [found] at calls
        split at h
        · cases h
        · rename_i code left read
          cases h
          obtain ⟨u, spells, whole⟩ := spells_of_tail calls read
          exact ⟨code, u, spells, rfl, whole⟩

theorem octets_singleton (c : Char) : octets (String.singleton c) = String.utf8EncodeChar c := by
  simp [octets, List.utf8Encode_singleton]

theorem ofNat_eq (b : UInt8) {n : Nat} (h : b.toNat = n) : UInt8.ofNat n = b := by
  rw [← h, UInt8.ofNat_toNat]

theorem ofNat_toNat {n : Nat} (h : n < 256) : (UInt8.ofNat n).toNat = n := by
  rw [UInt8.toNat_ofNat', Nat.mod_eq_of_lt h]

theorem Spells.valid {n : Nat} {u : List UInt8} (spells : Spells n u) : n.isValidChar := by
  unfold Nat.isValidChar
  cases spells with
  | one first => omega
  | two first second => omega
  | three first second third least greatest =>
      unfold Continues at second third
      omega
  | four first second third fourth least greatest =>
      unfold Continues at second third fourth
      omega

theorem toNat_ofNat_of_valid {n : Nat} (valid : n.isValidChar) : (Char.ofNat n).toNat = n := by
  rw [Char.ofNat, dif_pos valid]
  rfl

/-- Octets that spell a code point are those of its character. -/
theorem Spells.octets_eq {n : Nat} {u : List UInt8} (spells : Spells n u) :
    octets (String.singleton (Char.ofNat n)) = u := by
  have code : (Char.ofNat n).val.toNat = n := toNat_ofNat_of_valid spells.valid
  rw [octets_singleton, String.utf8EncodeChar]
  simp only [code]
  cases spells with
  | one first => rw [if_pos (by omega), UInt8.ofNat_toNat]
  | @two b b₁ first second =>
      unfold Continues at second
      rw [if_neg (by omega), if_pos (by omega), ofNat_eq b (by omega), ofNat_eq b₁ (by omega)]
  | @three b b₁ b₂ first second third least greatest =>
      unfold Continues at second third
      rw [if_neg (by omega), if_neg (by omega), if_pos (by omega), ofNat_eq b (by omega),
        ofNat_eq b₁ (by omega), ofNat_eq b₂ (by omega)]
  | @four b b₁ b₂ b₃ first second third fourth least greatest =>
      unfold Continues at second third fourth
      rw [if_neg (by omega), if_neg (by omega), if_neg (by omega), ofNat_eq b (by omega),
        ofNat_eq b₁ (by omega), ofNat_eq b₂ (by omega), ofNat_eq b₃ (by omega)]

theorem continues_ofNat (n : Nat) : Continues (.ofNat (n % 64 + 0x80)) := by
  have octet := ofNat_toNat (show n % 64 + 0x80 < 256 by omega)
  exact ⟨by omega, by omega⟩

theorem Spells.of_eq {m n : Nat} {u : List UInt8} (spells : Spells m u) (h : m = n) : Spells n u := h ▸ spells

/-- The octets of a character spell it. -/
theorem spells_octets (c : Char) : Spells c.toNat (octets (String.singleton c)) := by
  have valid : c.toNat < 0xD800 ∨ 0xDFFF < c.toNat ∧ c.toNat < 0x110000 := c.valid
  rw [octets_singleton, String.utf8EncodeChar]
  simp only [show c.val.toNat = c.toNat from rfl]
  generalize c.toNat = n at valid ⊢
  have last := ofNat_toNat (show n % 64 + 0x80 < 256 by omega)
  have third := ofNat_toNat (show n / 64 % 64 + 0x80 < 256 by omega)
  have second := ofNat_toNat (show n / 4096 % 64 + 0x80 < 256 by omega)
  split
  · have first := ofNat_toNat (show n < 256 by omega)
    exact (Spells.one (by omega)).of_eq first
  split
  · have first := ofNat_toNat (show n / 64 % 32 + 0xC0 < 256 by omega)
    exact (Spells.two (by omega) (continues_ofNat n)).of_eq (by omega)
  split
  · have first := ofNat_toNat (show n / 4096 % 16 + 0xE0 < 256 by omega)
    exact (Spells.three (by omega) (continues_ofNat (n / 64)) (continues_ofNat n) (by omega)
      (by omega)).of_eq (by omega)
  · have first := ofNat_toNat (show n / 262144 % 8 + 0xF0 < 256 by omega)
    exact (Spells.four (by omega) (continues_ofNat (n / 4096)) (continues_ofNat (n / 64))
      (continues_ofNat n) (by omega) (by omega)).of_eq (by omega)

/-- A character is read exactly when its octets come next. -/
theorem character_eq_ok_iff {bs rest : List UInt8} {c : Char} :
    character bs = .ok (c, rest) ↔ bs = octets (String.singleton c) ++ rest := by
  constructor
  · intro h
    obtain ⟨n, u, spells, rfl, rfl⟩ := spells_of_character h
    rw [spells.octets_eq]
  · rintro rfl
    rw [(spells_octets c).character, Char.ofNat_toNat]

/-! ## Texts -/

theorem octets_ofList_cons (c : Char) (cs : List Char) :
    octets (String.ofList (c :: cs)) = octets (String.singleton c) ++ octets (String.ofList cs) := by
  rw [← octets_append]
  congr 1
  rw [← String.toList_inj]
  simp

theorem decode_of_character {bs rest : List UInt8} {c : Char} (h : character bs = .ok (c, rest)) :
    decode bs = (c :: (decode rest).1, (decode rest).2.1, (decode rest).2.2) := by
  rw [decode]
  split
  · rename_i e stops
    cases h.symm.trans stops
  · rename_i c' rest' reads
    cases h.symm.trans reads
    rfl

theorem decode_of_error {bs : List UInt8} {e : Ending} (h : character bs = .error e) :
    decode bs = ([], bs, e) := by
  rw [decode]
  split
  · rename_i e' stops
    cases h.symm.trans stops
    rfl
  · rename_i reads
    cases h.symm.trans reads

/-- What was read and what is left are the octets, and nothing more can be read. -/
theorem decode_eq {bs left : List UInt8} {cs : List Char} {e : Ending} (h : decode bs = (cs, left, e)) :
    bs = octets (String.ofList cs) ++ left ∧ character left = .error e := by
  induction bs using decode.induct generalizing cs with
  | case1 bs e' stops =>
      rw [decode_of_error stops] at h
      cases h
      exact ⟨rfl, stops⟩
  | case2 bs c rest reads _ _ _ _ ih =>
      rw [decode_of_character reads] at h
      cases h
      obtain ⟨parts, stops⟩ := ih rfl
      refine ⟨?_, stops⟩
      rw [octets_ofList_cons, List.append_assoc, ← parts]
      exact character_eq_ok_iff.1 reads

/-- Reading goes on where it stopped. -/
theorem decode_append {bs left : List UInt8} {cs : List Char} {e : Ending} (h : decode bs = (cs, left, e))
    (more : List UInt8) : decode (bs ++ more) =
      (cs ++ (decode (left ++ more)).1, (decode (left ++ more)).2.1, (decode (left ++ more)).2.2) := by
  induction bs using decode.induct generalizing cs with
  | case1 bs e' stops =>
      rw [decode_of_error stops] at h
      cases h
      rfl
  | case2 bs c rest reads _ _ _ _ ih =>
      rw [decode_of_character reads] at h
      cases h
      have reads' : character (bs ++ more) = .ok (c, rest ++ more) := by
        rw [character_eq_ok_iff] at reads ⊢
        rw [reads, List.append_assoc]
      rw [decode_of_character reads', ih rfl]
      rfl

/-- The octets of a text are read as the text. -/
theorem decode_octets (T : String) : decode (octets T) = (T.toList, [], .complete) := by
  suffices h : ∀ cs : List Char, decode (octets (String.ofList cs)) = (cs, [], .complete) by
    simpa using h T.toList
  intro cs
  induction cs with
  | nil => exact decode_of_error rfl
  | cons c cs ih =>
      rw [decode_of_character (character_eq_ok_iff.2 (octets_ofList_cons c cs)), ih]

theorem tail_invalid_append {owed seen code n : Nat} {lo hi : UInt8} {bs : List UInt8}
    (h : tail owed lo hi seen code bs = .error (.invalid n)) (more : List UInt8) :
    tail owed lo hi seen code (bs ++ more) = .error (.invalid n) := by
  induction bs generalizing owed lo hi seen code with
  | nil => cases owed <;> cases h
  | cons b bs ih =>
      cases owed with
      | zero => cases h
      | succ owed =>
          simp only [List.cons_append, tail] at h ⊢
          split at h
          · rename_i within
            rw [if_pos within]
            exact ih h
          · rename_i without
            rw [if_neg without]
            exact h

/-- Octets that begin no character do not begin one with more octets behind them. -/
theorem character_invalid_append {bs : List UInt8} {n : Nat} (h : character bs = .error (.invalid n))
    (more : List UInt8) : character (bs ++ more) = .error (.invalid n) := by
  cases bs with
  | nil => cases h
  | cons b bs =>
      simp only [List.cons_append, character] at h ⊢
      split at h
      · exact h
      · split at h
        · rename_i stops
          cases h
          rw [tail_invalid_append stops more]
        · cases h

theorem decode_invalid_append {bs left : List UInt8} {cs : List Char} {n : Nat}
    (h : decode bs = (cs, left, .invalid n)) (more : List UInt8) :
    decode (bs ++ more) = (cs, left ++ more, .invalid n) := by
  rw [decode_append h, decode_of_error (character_invalid_append (decode_eq h).2 more), List.append_nil]

/-- No beginning of the octets of a text is malformed. -/
theorem decode_ne_invalid {bs left : List UInt8} {cs : List Char} {T : String} (starts : bs <+: octets T)
    {n : Nat} : decode bs ≠ (cs, left, .invalid n) := by
  intro h
  obtain ⟨more, whole⟩ := starts
  have read := decode_invalid_append h more
  rw [whole, decode_octets] at read
  simp at read

/-- The text read from the front of octets. -/
def readable (bs : List UInt8) : String := String.ofList (decode bs).1

theorem readable_octets (T : String) : readable (octets T) = T := by
  rw [readable, decode_octets, String.ofList_toList]

/-- What can be read of more octets. -/
theorem readable_append {bs left : List UInt8} {cs : List Char} {e : Ending} (h : decode bs = (cs, left, e))
    (more : List UInt8) : readable (bs ++ more) = String.ofList cs ++ readable (left ++ more) := by
  rw [readable, decode_append h, readable, ← String.toList_inj]
  simp

/-- What can be read of octets is the longest text that they begin with. -/
theorem octets_isPrefix_iff {bs : List UInt8} {T : String} :
    octets T <+: bs ↔ ∃ more, readable bs = T ++ more := by
  constructor
  · rintro ⟨more, rfl⟩
    exact ⟨_, by rw [readable_append (decode_octets T), String.ofList_toList]⟩
  · rintro ⟨more, h⟩
    have parts := (decode_eq (rfl : decode bs = _)).1
    rw [← readable, h, octets_append, List.append_assoc] at parts
    exact ⟨_, parts.symm⟩

end PegFlow.Text.Utf8
