/-
# PegFlow.Proofs.CharClass.Table -- a compiled class is the set of its ranges

A class is compiled exactly when all its ranges are in order, and the first one that is not
is reported otherwise. The compiled class holds the characters of its ranges, or all the
others when it is negated (`CharClass.compile?_holds_ranges`).

Below U+0080 each range sets its bits (`testBit_lowBits`). From there on the ranges are put
in order of where they start (`insertRange_ordered`) and those that touch are joined, which
covers the same code points (`covers_joinFrom`) and leaves ranges with gaps between them
(`joinFrom_apart`). With gaps, looking at any one range tells on which side to go on, so a
search may look at the ranges in whatever order it likes (`Probes.found_iff`).
-/
import PegFlow.CharClass
import Mathlib.Data.Nat.Bitwise
import Mathlib.Data.List.Pairwise

namespace PegFlow

set_option autoImplicit false

namespace CharClass

/-! ## The bits -/

theorem testBit_between {first stop : Nat} (le : first ≤ stop) (i : Nat) :
    ((1 <<< stop) - (1 <<< first)).testBit i = decide (first ≤ i ∧ i < stop) := by
  have positive := Nat.two_pow_pos first
  have more : 2 ^ first - 1 < 2 ^ stop := by
    have := Nat.pow_le_pow_right (by decide : 0 < 2) le
    omega
  rw [Nat.one_shiftLeft, Nat.one_shiftLeft, show 2 ^ first = 2 ^ first - 1 + 1 by omega,
    Nat.testBit_two_pow_sub_succ more, Nat.testBit_two_pow_sub_one, Bool.eq_iff_iff]
  simp only [Bool.and_eq_true, Bool.not_eq_true', decide_eq_true_eq, decide_eq_false_iff_not, Nat.not_lt]
  exact and_comm

theorem testBit_lowBits (r : CharRange) {i : Nat} (low : i < lowSize) :
    (lowBits r).testBit i = decide (r.first.toNat ≤ i ∧ i ≤ r.last.toNat) := by
  simp only [lowBits]
  rw [testBit_between (Nat.min_le_right _ _), decide_eq_decide]
  omega

theorem testBit_lowBits_foldl (ranges : List CharRange) (bits : Nat) {i : Nat} (low : i < lowSize) :
    (ranges.foldl (fun bits r => bits ||| lowBits r) bits).testBit i =
      (bits.testBit i || decide (∃ r ∈ ranges, r.first.toNat ≤ i ∧ i ≤ r.last.toNat)) := by
  induction ranges generalizing bits with
  | nil => simp
  | cons r rest ih =>
      rw [List.foldl_cons, ih, Nat.testBit_or, testBit_lowBits r low, Bool.or_assoc]
      simp

theorem lowBits_foldl_lt (ranges : List CharRange) {bits : Nat} (fits : bits < 2 ^ lowSize) :
    ranges.foldl (fun bits r => bits ||| lowBits r) bits < 2 ^ lowSize := by
  induction ranges generalizing bits with
  | nil => exact fits
  | cons r rest ih =>
      refine ih (Nat.or_lt_two_pow fits ?_)
      have stop : 2 ^ min (r.last.toNat + 1) lowSize ≤ 2 ^ lowSize :=
        Nat.pow_le_pow_right (by decide) (Nat.min_le_right _ _)
      have positive := Nat.two_pow_pos (min r.first.toNat (min (r.last.toNat + 1) lowSize))
      have first := Nat.two_pow_pos (min (r.last.toNat + 1) lowSize)
      simp only [lowBits, Nat.one_shiftLeft]
      omega

/-! ## Ranges in order -/

/-- Some range holds the code point. -/
def Covers (ranges : List (Nat × Nat)) (code : Nat) : Prop := ∃ r ∈ ranges, r.1 ≤ code ∧ code ≤ r.2

@[simp] theorem covers_nil (code : Nat) : ¬ Covers [] code := by simp [Covers]

@[simp] theorem covers_cons (r : Nat × Nat) (rest : List (Nat × Nat)) (code : Nat) :
    Covers (r :: rest) code ↔ (r.1 ≤ code ∧ code ≤ r.2) ∨ Covers rest code := by
  simp [Covers]

theorem covers_append (as bs : List (Nat × Nat)) (code : Nat) :
    Covers (as ++ bs) code ↔ Covers as code ∨ Covers bs code := by
  simp [Covers, or_and_right, exists_or]

/-- Each range starts where the one before it does, or later. -/
def Ordered (ranges : List (Nat × Nat)) : Prop := ranges.Pairwise fun r s => r.1 ≤ s.1

theorem mem_insertRange {r s : Nat × Nat} {ranges : List (Nat × Nat)} :
    s ∈ insertRange r ranges ↔ s = r ∨ s ∈ ranges := by
  induction ranges with
  | nil => simp [insertRange]
  | cons t rest ih =>
      rw [insertRange]
      split
      · simp
      · simp only [List.mem_cons, ih, or_left_comm]

theorem insertRange_ordered (r : Nat × Nat) {ranges : List (Nat × Nat)} (ordered : Ordered ranges) :
    Ordered (insertRange r ranges) := by
  induction ranges with
  | nil => simp [insertRange, Ordered]
  | cons t rest ih =>
      obtain ⟨first, later⟩ := List.pairwise_cons.1 ordered
      rw [insertRange]
      split
      · rename_i before
        refine List.pairwise_cons.2 ⟨fun s mem => ?_, ordered⟩
        rcases List.mem_cons.1 mem with rfl | mem
        · exact before
        · exact before.trans (first s mem)
      · rename_i behind
        refine List.pairwise_cons.2 ⟨fun s mem => ?_, ih later⟩
        rcases mem_insertRange.1 mem with rfl | mem
        · omega
        · exact first s mem

theorem mem_foldr_insertRange {s : Nat × Nat} {ranges : List (Nat × Nat)} :
    s ∈ ranges.foldr insertRange [] ↔ s ∈ ranges := by
  induction ranges with
  | nil => rfl
  | cons r rest ih => rw [List.foldr_cons, mem_insertRange, ih, List.mem_cons]

theorem foldr_insertRange_ordered (ranges : List (Nat × Nat)) : Ordered (ranges.foldr insertRange []) := by
  induction ranges with
  | nil => exact List.Pairwise.nil
  | cons r rest ih => exact insertRange_ordered r ih

/-! ## Ranges with gaps -/

/-- The ranges hold code points, and between two of them there are others. -/
def Apart (ranges : List (Nat × Nat)) : Prop :=
  (∀ r ∈ ranges, r.1 ≤ r.2) ∧ ranges.Pairwise fun r s => r.2 + 1 < s.1

variable {current : Nat × Nat} {rest : List (Nat × Nat)}

/-- To join a range with one that starts inside it or right behind it keeps the order. -/
theorem Ordered.join {r : Nat × Nat} (last : Nat) (ordered : Ordered (current :: r :: rest)) :
    Ordered ((current.1, last) :: rest) := by
  obtain ⟨first, later⟩ := List.pairwise_cons.1 ordered
  exact List.pairwise_cons.2 ⟨fun s mem => first s (List.mem_cons_of_mem r mem), (List.pairwise_cons.1 later).2⟩

/-- Joining covers the same code points. -/
theorem covers_joinFrom (ordered : Ordered (current :: rest)) (code : Nat) :
    Covers (joinFrom current rest) code ↔ Covers (current :: rest) code := by
  induction rest generalizing current with
  | nil => rfl
  | cons r rest ih =>
      obtain ⟨first, later⟩ := List.pairwise_cons.1 ordered
      have start := first r (List.mem_cons_self ..)
      rw [joinFrom]
      split
      · rename_i touch
        rw [ih (ordered.join _), covers_cons, covers_cons, covers_cons, ← or_assoc]
        refine or_congr_left ?_
        omega
      · rw [covers_cons, covers_cons current, ih later]

/-- Joining begins where the first range does. -/
theorem le_of_mem_joinFrom (ordered : Ordered (current :: rest)) {s : Nat × Nat}
    (mem : s ∈ joinFrom current rest) : current.1 ≤ s.1 := by
  induction rest generalizing current with
  | nil => rw [List.mem_singleton.1 mem]
  | cons r rest ih =>
      obtain ⟨first, later⟩ := List.pairwise_cons.1 ordered
      rw [joinFrom] at mem
      split at mem
      · have start := ih (ordered.join (max current.2 r.2)) mem
        exact start
      · rcases List.mem_cons.1 mem with rfl | mem
        · exact Nat.le_refl _
        · exact (first r (List.mem_cons_self ..)).trans (ih later mem)

/-- Joining leaves gaps. -/
theorem joinFrom_apart (ordered : Ordered (current :: rest)) (filled : ∀ r ∈ current :: rest, r.1 ≤ r.2) :
    Apart (joinFrom current rest) := by
  induction rest generalizing current with
  | nil => exact ⟨filled, List.pairwise_singleton _ _⟩
  | cons r rest ih =>
      obtain ⟨here, others⟩ := List.forall_mem_cons.1 filled
      rw [joinFrom]
      split
      · refine ih (ordered.join _) (List.forall_mem_cons.2 ⟨?_, (List.forall_mem_cons.1 others).2⟩)
        exact here.trans (Nat.le_max_left _ _)
      · rename_i gap
        have later := (List.pairwise_cons.1 ordered).2
        obtain ⟨filled_, apart⟩ := ih later others
        refine ⟨List.forall_mem_cons.2 ⟨here, filled_⟩, List.pairwise_cons.2 ⟨fun s mem => ?_, apart⟩⟩
        have := le_of_mem_joinFrom later mem
        omega

/-- The ranges of a table: those that were given, in order and with gaps. -/
theorem normalize_spec {ranges : List (Nat × Nat)} (filled : ∀ r ∈ ranges, r.1 ≤ r.2) :
    Apart (normalize ranges) ∧ ∀ code, Covers (normalize ranges) code ↔ Covers ranges code := by
  have same (code : Nat) : Covers (ranges.foldr insertRange []) code ↔ Covers ranges code := by
    simp only [Covers, mem_foldr_insertRange]
  have ordered := foldr_insertRange_ordered ranges
  have filled_ : ∀ r ∈ ranges.foldr insertRange [], r.1 ≤ r.2 :=
    fun r mem => filled r (mem_foldr_insertRange.1 mem)
  rw [normalize]
  split
  · rename_i none
    rw [none] at same
    exact ⟨⟨by simp, List.Pairwise.nil⟩, same⟩
  · rename_i r rest some_
    rw [some_] at same ordered filled_
    exact ⟨joinFrom_apart ordered filled_, fun code => (covers_joinFrom ordered code).trans (same code)⟩

/-- A code point before a range lies before all that follow it. -/
theorem Apart.ordered {ranges : List (Nat × Nat)} (apart : Apart ranges) : Ordered ranges := by
  obtain ⟨filled, gaps⟩ := apart
  refine List.Pairwise.imp_of_mem (fun {r s} memR memS gap => ?_) gaps
  have := filled r memR
  omega

/-- The search finds what is covered. -/
theorem search_iff {ranges : List (Nat × Nat)} (ordered : Ordered ranges) (code : Nat) :
    search code ranges = true ↔ Covers ranges code := by
  induction ranges with
  | nil => simp [search]
  | cons r rest ih =>
      obtain ⟨first, later⟩ := List.pairwise_cons.1 ordered
      rw [search, covers_cons]
      split
      · rename_i before
        refine iff_of_false Bool.false_ne_true ?_
        rintro (here | ⟨s, mem, start, -⟩)
        · omega
        · have := first s mem
          omega
      · split
        · exact iff_of_true rfl (Or.inl (by omega))
        · rw [ih later]
          refine ⟨Or.inr, fun h => h.resolve_left (by omega)⟩

/-- A search that looks at some range, and goes on before it or behind it unless the range
holds the code point. -/
inductive Probes (code : Nat) : List (Nat × Nat) → Bool → Prop where
  | nowhere : Probes code [] false
  | here {before behind : List (Nat × Nat)} {r : Nat × Nat} (low : r.1 ≤ code) (high : code ≤ r.2) :
      Probes code (before ++ r :: behind) true
  | before {before behind : List (Nat × Nat)} {r : Nat × Nat} {found : Bool} (lt : code < r.1)
      (rest : Probes code before found) : Probes code (before ++ r :: behind) found
  | behind {before behind : List (Nat × Nat)} {r : Nat × Nat} {found : Bool} (lt : r.2 < code)
      (rest : Probes code behind found) : Probes code (before ++ r :: behind) found

theorem apart_append {as bs : List (Nat × Nat)} :
    Apart (as ++ bs) ↔ Apart as ∧ Apart bs ∧ ∀ r ∈ as, ∀ s ∈ bs, r.2 + 1 < s.1 := by
  rw [Apart, Apart, Apart, List.forall_mem_append, List.pairwise_append]
  tauto

theorem apart_cons {r : Nat × Nat} {ranges : List (Nat × Nat)} :
    Apart (r :: ranges) ↔ r.1 ≤ r.2 ∧ Apart ranges ∧ ∀ s ∈ ranges, r.2 + 1 < s.1 := by
  rw [Apart, Apart, List.forall_mem_cons, List.pairwise_cons]
  tauto

/-- With gaps between the ranges, every such search finds what is covered: a range on the side
that is given up does not hold the code point. -/
theorem Probes.found_iff {code : Nat} {ranges : List (Nat × Nat)} {found : Bool}
    (probes : Probes code ranges found) (apart : Apart ranges) : found = true ↔ Covers ranges code := by
  induction probes with
  | nowhere => simp
  | here low high => simp [covers_append, low, high]
  | @before before behind r found lt _ ih =>
      obtain ⟨left, right, -⟩ := apart_append.1 apart
      obtain ⟨filled, -, gaps⟩ := apart_cons.1 right
      have given : ¬ Covers (r :: behind) code := by
        rw [covers_cons]
        rintro (here | ⟨s, mem, low, -⟩)
        · omega
        · have := gaps s mem
          omega
      rw [ih left, covers_append, or_iff_left given]
  | @behind before behind r found lt _ ih =>
      obtain ⟨-, right, gaps⟩ := apart_append.1 apart
      obtain ⟨filled, right, -⟩ := apart_cons.1 right
      have given : ¬ (Covers before code ∨ (r.1 ≤ code ∧ code ≤ r.2)) := by
        rintro (⟨s, mem, -, high⟩ | here)
        · have := gaps s mem r (List.mem_cons_self ..)
          omega
        · omega
      rw [ih right, covers_append, covers_cons, ← or_assoc, or_iff_right given]

/-! ## The table of a class -/

theorem isOrdered_iff (r : CharRange) : r.isOrdered = true ↔ r.first ≤ r.last := by
  rw [CharRange.isOrdered, decide_eq_true_iff]
  exact UInt32.le_iff_toNat_le.symm

theorem highPart?_eq_some {r : CharRange} {part : Nat × Nat} (taken : highPart? r = some part) :
    lowSize ≤ r.last.toNat ∧ part = (max r.first.toNat lowSize, r.last.toNat) := by
  rw [highPart?] at taken
  split at taken
  · rename_i high
    exact ⟨high, (Option.some.inj taken).symm⟩
  · cases taken

/-- The parts from `lowSize` on of ranges in order are in order. -/
theorem filled_of_mem_highParts {ranges : List CharRange} (ordered : ∀ r ∈ ranges, r.first ≤ r.last)
    {part : Nat × Nat} (mem : part ∈ ranges.filterMap highPart?) : lowSize ≤ part.1 ∧ part.1 ≤ part.2 := by
  obtain ⟨r, memR, taken⟩ := List.mem_filterMap.1 mem
  obtain ⟨high, rfl⟩ := highPart?_eq_some taken
  exact ⟨Nat.le_max_right _ _, Nat.max_le.2 ⟨UInt32.le_iff_toNat_le.1 (ordered r memR), high⟩⟩

/-- The code points from `lowSize` on that the ranges of a class hold. -/
theorem covers_highParts (ranges : List CharRange) {code : Nat} (high : lowSize ≤ code) :
    Covers (ranges.filterMap highPart?) code ↔ ∃ r ∈ ranges, r.first.toNat ≤ code ∧ code ≤ r.last.toNat := by
  simp only [Covers, List.mem_filterMap]
  constructor
  · rintro ⟨part, ⟨r, mem, taken⟩, low, up⟩
    obtain ⟨-, rfl⟩ := highPart?_eq_some taken
    exact ⟨r, mem, (Nat.le_max_left _ _).trans low, up⟩
  · rintro ⟨r, mem, low, up⟩
    exact ⟨_, ⟨r, mem, by rw [highPart?, if_pos (high.trans up)]⟩, Nat.max_le.2 ⟨low, high⟩, up⟩

/-- The form of a compiled class: its bits, and ranges with gaps behind them. -/
structure Tidy (t : CharClass) : Prop where
  low : t.low < 2 ^ lowSize
  behind : ∀ r ∈ t.high, lowSize ≤ r.1
  apart : Apart t.high

theorem compile?_of_ordered {spec : ClassSpec} (ordered : ∀ r ∈ spec.ranges, r.first ≤ r.last) :
    compile? spec = .ok ⟨spec.ranges.foldl (fun bits r => bits ||| lowBits r) 0,
      normalize (spec.ranges.filterMap highPart?), spec.negated⟩ := by
  have none : spec.ranges.find? (fun r => !r.isOrdered) = none := by
    rw [List.find?_eq_none]
    intro r mem
    simp [(isOrdered_iff r).2 (ordered r mem)]
  simp only [compile?, none]

theorem tidy_of_ordered {ranges : List CharRange} (ordered : ∀ r ∈ ranges, r.first ≤ r.last) (negated : Bool) :
    Tidy ⟨ranges.foldl (fun bits r => bits ||| lowBits r) 0, normalize (ranges.filterMap highPart?), negated⟩ := by
  obtain ⟨apart, same⟩ := normalize_spec fun part mem => (filled_of_mem_highParts ordered mem).2
  refine ⟨lowBits_foldl_lt ranges (by decide), fun r mem => ?_, apart⟩
  obtain ⟨part, memPart, start, -⟩ := (same r.1).1 ⟨r, mem, Nat.le_refl _, apart.1 r mem⟩
  exact (filled_of_mem_highParts ordered memPart).1.trans start

theorem exists_range_iff (ranges : List CharRange) (c : Char) :
    (∃ r ∈ ranges, r.first.toNat ≤ c.toNat ∧ c.toNat ≤ r.last.toNat) ↔ ∃ r ∈ ranges, r.first ≤ c ∧ c ≤ r.last := by
  simp only [Char.le_def, UInt32.le_iff_toNat_le, Char.toNat_val]

/-- The table holds what the ranges hold: a bit stands for each character below `lowSize`, and
the others are searched for. -/
theorem contains_of_ordered {ranges : List CharRange} (ordered : ∀ r ∈ ranges, r.first ≤ r.last) (negated : Bool)
    (c : Char) :
    contains ⟨ranges.foldl (fun bits r => bits ||| lowBits r) 0, normalize (ranges.filterMap highPart?), negated⟩ c =
      (decide (∃ r ∈ ranges, r.first ≤ c ∧ c ≤ r.last) != negated) := by
  simp only [contains]
  congr 1
  by_cases low : c.toNat < lowSize
  · rw [if_pos low, testBit_lowBits_foldl ranges 0 low, Nat.zero_testBit, Bool.false_or, decide_eq_decide]
    exact exists_range_iff ranges c
  · have tidy := tidy_of_ordered ordered negated
    have covers := covers_highParts ranges (Nat.le_of_not_lt low)
    rw [if_neg low, Bool.eq_iff_iff, search_iff tidy.apart.ordered, decide_eq_true_iff, ← exists_range_iff, ← covers]
    exact (normalize_spec fun part mem => (filled_of_mem_highParts ordered mem).2).2 c.toNat

theorem compile?_eq_error_iff {spec : ClassSpec} {r : CharRange} : compile? spec = .error r ↔
    ∃ before after, spec.ranges = before ++ r :: after ∧ r.last < r.first ∧ ∀ s ∈ before, s.first ≤ s.last := by
  have inverted (r : CharRange) : (!r.isOrdered) = true ↔ r.last < r.first := by
    rw [Bool.not_eq_true', ← Bool.not_eq_true, isOrdered_iff, Char.not_le]
  have found : compile? spec = .error r ↔ spec.ranges.find? (fun r => !r.isOrdered) = some r := by
    rw [compile?]
    cases spec.ranges.find? fun r => !r.isOrdered <;> simp
  rw [found, List.find?_eq_some_iff_append]
  simp only [inverted, Bool.not_not, isOrdered_iff]
  tauto

theorem ordered_of_compile? {spec : ClassSpec} {t : CharClass} (compiled : compile? spec = .ok t) :
    ∀ r ∈ spec.ranges, r.first ≤ r.last := by
  have none : spec.ranges.find? (fun r => !r.isOrdered) = none := by
    rw [compile?] at compiled
    cases found : spec.ranges.find? (fun r => !r.isOrdered) with
    | none => rfl
    | some r => simp [found] at compiled
  intro r mem
  simpa [isOrdered_iff] using List.find?_eq_none.1 none r mem

/-- A class compiles exactly when its ranges are in order, and the first one that is not is
reported. What it compiles to holds the characters of its ranges, or the others when it is
negated, in whatever way the ranges behind the bits are searched. -/
theorem compile?_holds_ranges (spec : ClassSpec) :
    (∃ r before after, compile? spec = .error r ∧ spec.ranges = before ++ r :: after ∧ r.last < r.first ∧
      ∀ s ∈ before, s.first ≤ s.last) ∨
    ((∀ r ∈ spec.ranges, r.first ≤ r.last) ∧ ∃ t, compile? spec = .ok t ∧ t.Tidy ∧ ∀ c : Char,
      t.contains c = (decide (∃ r ∈ spec.ranges, r.first ≤ c ∧ c ≤ r.last) != spec.negated) ∧
      ∀ found, lowSize ≤ c.toNat → Probes c.toNat t.high found → t.contains c = (found != spec.negated)) := by
  cases compiled : compile? spec with
  | error r =>
      obtain ⟨before, after, split⟩ := compile?_eq_error_iff.1 compiled
      exact Or.inl ⟨r, before, after, rfl, split⟩
  | ok t =>
      have ordered := ordered_of_compile? compiled
      refine Or.inr ⟨ordered, t, rfl, ?_⟩
      cases (compile?_of_ordered ordered).symm.trans compiled
      have tidy := tidy_of_ordered ordered spec.negated
      refine ⟨tidy, fun c => ⟨contains_of_ordered ordered spec.negated c, fun found high probes => ?_⟩⟩
      have same : search c.toNat (normalize (spec.ranges.filterMap highPart?)) = found := by
        rw [Bool.eq_iff_iff, search_iff tidy.apart.ordered, probes.found_iff tidy.apart]
      simp only [contains, if_neg (Nat.not_lt.2 high), same]

end CharClass

end PegFlow
