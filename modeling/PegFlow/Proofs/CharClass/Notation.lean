/-
# PegFlow.Proofs.CharClass.Notation -- classes read back as they are described

A class reads back from its description exactly when no end of its ranges is a control
character without a letter of its own (`ClassSpec.ofText_describe_iff`). Such a character is
described by its number in braces, for which the notation has no place: it is read as a `u`,
the braces and the digits.

Every other character is written as itself or behind a backslash (`writes_describeChar`), and
read as that character whatever follows (`Writes.readUnit`, `Writes.readLast`). What begins
the description of a character is never a dash or a caret (`Writes.exists_cons`), so none is
taken for the sign of a range or of a negated class. In the other direction, a text without
control characters that are described by number is never read as a class with one
(`ofText_lettered`).
-/
import PegFlow.CharClass.Notation

namespace PegFlow.ClassSpec

set_option autoImplicit false

/-- The character is described by its number: it controls, and no letter stands for it. -/
def IsNumbered (c : Char) : Prop :=
  isControl c = true ∧ c ≠ '\n' ∧ c ≠ '\t' ∧ c ≠ '\r' ∧ c ≠ '\x00'

instance (c : Char) : Decidable (IsNumbered c) := inferInstanceAs (Decidable (_ ∧ _))

/-! ## From a class to its text and back -/

/-- The text stands for the character: as itself when it has no other meaning, or behind a
backslash. -/
inductive Writes (c : Char) : List Char → Prop where
  | plain (escape : c ≠ '\\') (dash : c ≠ '-') (caret : c ≠ '^') : Writes c [c]
  | escaped {e : Char} (literal : shorthand? e = none) (stands : unescape e = c) : Writes c ['\\', e]

theorem writes_describeChar {c : Char} (letter : ¬ IsNumbered c) : Writes c (describeChar c) := by
  rw [describeChar]
  split
  · subst_vars; exact .escaped rfl rfl
  split
  · subst_vars; exact .escaped rfl rfl
  split
  · subst_vars; exact .escaped rfl rfl
  split
  · subst_vars; exact .escaped rfl rfl
  split
  · rename_i special
    rcases special with rfl | rfl | rfl | rfl <;> exact .escaped rfl rfl
  split
  · rename_i feed tab return_ null _ control
    exact absurd ⟨control, feed, tab, return_, null⟩ letter
  · rename_i special _
    simp only [not_or] at special
    exact .plain special.1 special.2.2.1 special.2.2.2

namespace Writes

variable {c : Char} {cs : List Char} (writes : Writes c cs) (rest : List Char)

include writes

theorem readUnit : ClassSpec.readUnit (cs ++ rest) = some (.char c, rest) := by
  cases writes with
  | plain escape => simp [ClassSpec.readUnit, escape]
  | escaped literal stands => simp [ClassSpec.readUnit, literal, stands]

theorem readLast : ClassSpec.readLast ('-' :: (cs ++ rest)) = some (c, rest) := by
  cases writes with
  | plain escape => simp [ClassSpec.readLast, escape]
  | escaped literal stands => simp [ClassSpec.readLast, stands]

omit rest in
theorem exists_cons : ∃ d ds, cs = d :: ds ∧ d ≠ '-' ∧ d ≠ '^' := by
  cases writes with
  | plain _ dash caret => exact ⟨c, [], rfl, dash, caret⟩
  | escaped => exact ⟨'\\', _, rfl, by decide, by decide⟩

end Writes

/-- Both ends of the range have a written form. -/
def Lettered (r : CharRange) : Prop := ¬ IsNumbered r.first ∧ ¬ IsNumbered r.last

theorem describeRange_exists_cons {r : CharRange} (lettered : Lettered r) :
    ∃ d ds, describeRange r = d :: ds ∧ d ≠ '-' ∧ d ≠ '^' := by
  obtain ⟨d, ds, first, head⟩ := (writes_describeChar lettered.1).exists_cons
  rw [describeRange, first]
  split
  · exact ⟨d, ds, rfl, head⟩
  · exact ⟨d, _, rfl, head⟩

theorem flatMap_describeRange_head {ranges : List CharRange} (lettered : ∀ r ∈ ranges, Lettered r) :
    ∀ d ∈ (ranges.flatMap describeRange).head?, d ≠ '-' ∧ d ≠ '^' := by
  cases ranges with
  | nil => simp
  | cons r rest =>
      obtain ⟨d, ds, text, head⟩ := describeRange_exists_cons (lettered r (List.mem_cons_self ..))
      simpa [text] using head

theorem readLast_eq_none {cs : List Char} (head : ∀ d ∈ cs.head?, d ≠ '-') : readLast cs = none := by
  cases cs with
  | nil => rfl
  | cons d ds => simp [readLast, head d (by simp)]

/-- What is described for ranges is read as those ranges. The induction is on the ranges; each
of them is one step of the reader. -/
theorem readRanges_flatMap {ranges : List CharRange} (lettered : ∀ r ∈ ranges, Lettered r) {fuel : Nat}
    (enough : ranges.length ≤ fuel) : readRanges fuel (ranges.flatMap describeRange) = ranges := by
  induction ranges generalizing fuel with
  | nil => cases fuel <;> rfl
  | cons r rest ih =>
      obtain ⟨⟨first, last⟩, others⟩ := List.forall_mem_cons.1 lettered
      cases fuel with
      | zero => cases enough
      | succ fuel =>
          have later := ih others (Nat.le_of_succ_le_succ enough)
          rw [List.flatMap_cons, describeRange, readRanges]
          by_cases same : r.last = r.first
          · have alone : readLast (rest.flatMap describeRange) = none :=
              readLast_eq_none fun d mem => (flatMap_describeRange_head others d mem).1
            rw [if_pos same, (writes_describeChar first).readUnit]
            simp only [alone, later]
            obtain ⟨c, d⟩ := r
            cases same
            rfl
          · rw [if_neg same, List.append_assoc, List.cons_append, (writes_describeChar first).readUnit]
            simp only [(writes_describeChar last).readLast, later]

theorem length_le_flatMap {ranges : List CharRange} (lettered : ∀ r ∈ ranges, Lettered r) :
    ranges.length ≤ (ranges.flatMap describeRange).length := by
  induction ranges with
  | nil => exact Nat.le_refl 0
  | cons r rest ih =>
      obtain ⟨here, others⟩ := List.forall_mem_cons.1 lettered
      obtain ⟨d, ds, text, -⟩ := describeRange_exists_cons here
      have := ih others
      rw [List.flatMap_cons, text, List.length_append, List.length_cons, List.length_cons]
      omega

theorem stripBrackets_brackets (cs : List Char) : stripBrackets ('[' :: cs ++ [']']) = cs := by
  simp [stripBrackets]

theorem ofText_describe {spec : ClassSpec} (lettered : ∀ r ∈ spec.ranges, Lettered r) :
    ofText spec.describe = spec := by
  obtain ⟨ranges, negated⟩ := spec
  have read := readRanges_flatMap lettered (length_le_flatMap lettered)
  rw [describe, ofText, String.toList_ofList]
  cases negated with
  | true =>
      have body : stripBrackets ('[' :: ['^'] ++ ranges.flatMap describeRange ++ [']']) =
          '^' :: ranges.flatMap describeRange := stripBrackets_brackets ('^' :: ranges.flatMap describeRange)
      simp only [if_true, body, read]
  | false =>
      have body : stripBrackets ('[' :: [] ++ ranges.flatMap describeRange ++ [']']) =
          ranges.flatMap describeRange := stripBrackets_brackets (ranges.flatMap describeRange)
      have head := flatMap_describeRange_head lettered
      simp only [Bool.false_eq_true, if_false, body]
      split
      · rename_i rest text
        exact absurd rfl (head '^' (by rw [text]; rfl)).2
      · rw [read]

/-! ## From a text to a class -/

/-- No character of the text is one that is described by number. -/
def Clean (cs : List Char) : Prop := ∀ c ∈ cs, ¬ IsNumbered c

theorem clean_cons {c : Char} {cs : List Char} : Clean (c :: cs) ↔ ¬ IsNumbered c ∧ Clean cs :=
  List.forall_mem_cons

theorem isControl_digitChar : ∀ n < 16, isControl (Nat.digitChar n) = false := by decide

theorem isControl_hexDigits (n : Nat) : ∀ c ∈ Text.hexDigits n, isControl c = false := by
  induction n using Nat.strongRecOn with
  | _ n ih =>
      rw [Text.hexDigits]
      by_cases small : n < 16
      · rw [Nat.toDigits_of_lt_base small]
        simpa using isControl_digitChar n small
      · rw [Nat.toDigits_of_base_le (by decide) (Nat.le_of_not_lt small)]
        intro c mem
        rcases List.mem_append.1 mem with mem | mem
        · exact ih (n / 16) (Nat.div_lt_self (by omega) (by decide)) c mem
        · rw [List.mem_singleton.1 mem]
          exact isControl_digitChar _ (Nat.mod_lt n (by decide))

theorem not_numbered_of_not_control {c : Char} (shows : isControl c = false) : ¬ IsNumbered c :=
  fun numbered => Bool.false_ne_true (shows.symm.trans numbered.1)

theorem isNumbered_unescape (c : Char) : IsNumbered (unescape c) ↔ IsNumbered c := by
  unfold unescape
  split
  · decide
  · decide
  · decide
  · decide
  · rfl

/-- A description has no character that would be described by number. -/
theorem clean_describeChar (c : Char) : Clean (describeChar c) := by
  by_cases numbered : IsNumbered c
  · obtain ⟨control, feed, tab, return_, null⟩ := numbered
    have special : ¬ (c = '\\' ∨ c = ']' ∨ c = '-' ∨ c = '^') := by
      rintro (rfl | rfl | rfl | rfl) <;> simp [isControl] at control
    rw [describeChar, if_neg feed, if_neg tab, if_neg return_, if_neg null, if_neg special, if_pos control]
    intro d mem
    simp only [List.cons_append, List.nil_append, List.mem_cons, List.mem_append, List.not_mem_nil, or_false] at mem
    rcases mem with rfl | rfl | rfl | mem | rfl
    · decide
    · decide
    · decide
    · exact not_numbered_of_not_control (isControl_hexDigits _ d mem)
    · decide
  · have writes := writes_describeChar numbered
    generalize describeChar c = cs at writes
    intro d mem
    cases writes with
    | plain => rwa [List.mem_singleton.1 mem]
    | escaped _ stands =>
        subst stands
        rw [isNumbered_unescape] at numbered
        rcases List.mem_cons.1 mem with rfl | mem
        · decide
        · rwa [List.mem_singleton.1 mem]

theorem clean_describe (spec : ClassSpec) : Clean spec.describe.toList := by
  have ranges : Clean (spec.ranges.flatMap describeRange) := by
    intro c mem
    obtain ⟨r, -, mem⟩ := List.mem_flatMap.1 mem
    rw [describeRange] at mem
    split at mem
    · exact clean_describeChar _ c mem
    · rcases List.mem_append.1 mem with mem | mem
      · exact clean_describeChar _ c mem
      · rcases List.mem_cons.1 mem with rfl | mem
        · decide
        · exact clean_describeChar _ c mem
  intro c mem
  rw [describe, String.toList_ofList, List.cons_append, List.cons_append, List.mem_cons, List.mem_append,
    List.mem_append, List.mem_singleton] at mem
  rcases mem with rfl | (mem | mem) | rfl
  · decide
  · split at mem
    · rw [List.mem_singleton.1 mem]
      decide
    · cases mem
  · exact ranges c mem
  · decide

/-- No end of what the unit stands for is described by number. -/
def Unit.Clean : Unit → Prop
  | .char c => ¬ IsNumbered c
  | .ranges rs => ∀ r ∈ rs, Lettered r

theorem shorthand?_lettered {c : Char} {rs : List CharRange} (short : shorthand? c = some rs) :
    ∀ r ∈ rs, Lettered r := by
  have all : ∀ rs ∈ [digits, wordChars, blanks], ∀ r ∈ rs, ¬ IsNumbered r.first ∧ ¬ IsNumbered r.last := by decide
  refine all rs ?_
  unfold shorthand? at short
  split at short <;> cases short <;> simp

/-- What is read off the front of a clean text is clean, and so is the rest. -/
theorem readUnit_clean {cs rest : List Char} {u : Unit} (clean : Clean cs) (read : readUnit cs = some (u, rest)) :
    u.Clean ∧ Clean rest := by
  fun_cases readUnit cs with
  | case1 => cases read
  | case2 =>
      cases read
      exact ⟨not_numbered_of_not_control rfl, List.forall_mem_nil _⟩
  | case3 c more rs short =>
      obtain ⟨-, -, later⟩ := clean_cons.1 clean |>.imp_right clean_cons.1
      simp only [readUnit, short] at read
      cases read
      exact ⟨shorthand?_lettered short, later⟩
  | case4 c more literal =>
      obtain ⟨-, here, later⟩ := clean_cons.1 clean |>.imp_right clean_cons.1
      simp only [readUnit, literal] at read
      cases read
      exact ⟨mt (isNumbered_unescape c).1 here, later⟩
  | case5 c more single escape =>
      obtain ⟨here, later⟩ := clean_cons.1 clean
      rw [readUnit] at read
      · cases read
        exact ⟨here, later⟩
      · exact single
      · exact escape

theorem readLast_clean {cs rest : List Char} {c : Char} (clean : Clean cs) (read : readLast cs = some (c, rest)) :
    ¬ IsNumbered c ∧ Clean rest := by
  fun_cases readLast cs with
  | case1 =>
      cases read
      exact ⟨by decide, List.forall_mem_nil _⟩
  | case2 e more =>
      obtain ⟨-, -, here, later⟩ := clean_cons.1 clean |>.imp_right (clean_cons.1 · |>.imp_right clean_cons.1)
      cases read
      exact ⟨mt (isNumbered_unescape e).1 here, later⟩
  | case3 e more single escape =>
      obtain ⟨-, here, later⟩ := clean_cons.1 clean |>.imp_right clean_cons.1
      rw [readLast] at read
      · cases read
        exact ⟨here, later⟩
      · exact single
      · exact escape
  | case4 _ last escape plain =>
      rw [readLast] at read
      · cases read
      · exact last
      · exact escape
      · exact plain

/-- A clean text is never read as a class with a character that is described by number. -/
theorem readRanges_lettered {fuel : Nat} {cs : List Char} (clean : Clean cs) :
    ∀ r ∈ readRanges fuel cs, Lettered r := by
  fun_induction readRanges fuel cs with
  | case1 => exact List.forall_mem_nil _
  | case2 => exact List.forall_mem_nil _
  | case3 fuel cs rs rest read ih =>
      obtain ⟨here, later⟩ := readUnit_clean clean read
      exact List.forall_mem_append.2 ⟨here, ih later⟩
  | case4 fuel cs first rest read last rest' readLast ih =>
      obtain ⟨here, later⟩ := readUnit_clean clean read
      obtain ⟨there, later'⟩ := readLast_clean later readLast
      exact List.forall_mem_cons.2 ⟨⟨here, there⟩, ih later'⟩
  | case5 fuel cs first rest read _ ih =>
      obtain ⟨here, later⟩ := readUnit_clean clean read
      exact List.forall_mem_cons.2 ⟨⟨here, here⟩, ih later⟩

theorem stripBrackets_clean {cs : List Char} (clean : Clean cs) : Clean (stripBrackets cs) := by
  fun_cases stripBrackets cs with
  | case1 rest => exact fun c mem => clean c (List.mem_cons_of_mem _ (List.dropLast_subset _ mem))
  | case2 => exact clean
  | case3 => exact clean

theorem ofText_lettered {text : String} (clean : Clean text.toList) : ∀ r ∈ (ofText text).ranges, Lettered r := by
  have stripped := stripBrackets_clean clean
  rw [ofText]
  split
  · rename_i rest body
    rw [body] at stripped
    exact readRanges_lettered (clean_cons.1 stripped).2
  · exact readRanges_lettered stripped

/-- A class reads back from its description exactly when none of its ends is described by
number. -/
theorem ofText_describe_iff (spec : ClassSpec) :
    ofText spec.describe = spec ↔ ∀ r ∈ spec.ranges, ¬ IsNumbered r.first ∧ ¬ IsNumbered r.last := by
  constructor
  · intro same
    have lettered := ofText_lettered (clean_describe spec)
    rwa [same] at lettered
  · exact ofText_describe

-- The bell is described by its number, which is read character by character.
example : ofText (describe ⟨[.single '\x07'], false⟩) =
    ⟨[.single 'u', .single '\x7b', .single '7', .single '\x7d'], false⟩ := by
  decide +kernel

end PegFlow.ClassSpec
