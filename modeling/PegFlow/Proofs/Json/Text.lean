/-
# PegFlow.Proofs.Json.Text -- documents read back from their text

A document whose integers have 64 bits, and which has no floats and no void parts
(`Json.IsExact`), reads back from its text as it was, if its containers are not nested too deep
(`Json.ofText?_toText`).

What is printed for a part is read up to its end, whatever comes behind it that may
(`Json.scanValue_print`), by induction on the document. A step of the reader uses up a
character, so the length of the text is enough fuel.
-/
import PegFlow.Json.Printer
import PegFlow.Json.Reader

namespace PegFlow.Json

set_option autoImplicit false

mutual

/-- How deep containers are nested in the document. -/
def depth : Json → Nat
  | .array items => depthOfItems items + 1
  | .object members => depthOfMembers members + 1
  | _ => 0

def depthOfItems : List Json → Nat
  | [] => 0
  | j :: rest => max j.depth (depthOfItems rest)

def depthOfMembers : List (String × Json) → Nat
  | [] => 0
  | (_, j) :: rest => max j.depth (depthOfMembers rest)

end

mutual

/-- The document has integers of 64 bits, and no floats and no void parts. -/
def IsExact : Json → Prop
  | .int n => -0x8000000000000000 ≤ n ∧ n ≤ 0xFFFFFFFFFFFFFFFF
  | .float _ => False
  | .void => False
  | .array items => AreExact items
  | .object members => HaveExact members
  | _ => True

def AreExact : List Json → Prop
  | [] => True
  | j :: rest => j.IsExact ∧ AreExact rest

def HaveExact : List (String × Json) → Prop
  | [] => True
  | (_, j) :: rest => j.IsExact ∧ HaveExact rest

end

mutual

theorem IsExact.isSolid : ∀ {j : Json}, j.IsExact → j.isSolid = true
  | .null, _ | .bool _, _ | .int _, _ | .string _, _ => rfl
  | .array _, exact => AreExact.areSolid exact
  | .object _, exact => HaveExact.haveSolid exact

theorem AreExact.areSolid : ∀ {js : List Json}, AreExact js → Json.areSolid js = true
  | [], _ => rfl
  | _ :: _, exact => Bool.and_eq_true_iff.2 ⟨exact.1.isSolid, AreExact.areSolid exact.2⟩

theorem HaveExact.haveSolid : ∀ {ms : List (String × Json)}, HaveExact ms → Json.haveSolid ms = true
  | [], _ => rfl
  | _ :: _, exact => Bool.and_eq_true_iff.2 ⟨exact.1.isSolid, HaveExact.haveSolid exact.2⟩

end

/-! ## Texts -/

theorem unit?_fourDigits : ∀ n < 0x20, unit? '0' '0' (Nat.digitChar (n / 16)) (Nat.digitChar (n % 16)) = some n := by
  decide

/-- What is printed for a character is read as that character. -/
theorem scanString_escapeChar (fuel : Nat) (read : List Char) (c : Char) (more : List Char) :
    scanString (fuel + 1) (some read) (escapeChar c ++ more) = scanString fuel (some (c :: read)) more := by
  rw [escapeChar]
  split
  · subst_vars; rfl
  split
  · subst_vars; rfl
  split
  · subst_vars; rfl
  split
  · subst_vars; rfl
  split
  · subst_vars; rfl
  split
  · subst_vars; rfl
  split
  · subst_vars; rfl
  split
  · rename_i low
    have read : unit? '0' '0' (Nat.digitChar (c.toNat / 16)) (Nat.digitChar (c.toNat % 16)) = some c.toNat :=
      unit?_fourDigits c.toNat low
    have notHigh : isHighHalf c.toNat = false := by simp [isHighHalf]; omega
    have notLow : isLowHalf c.toNat = false := by simp [isLowHalf]; omega
    simp only [fourDigits, List.cons_append, List.nil_append]
    rw [scanString, read]
    simp [notHigh, notLow, push, Char.ofNat_toNat]
  · rename_i quote slash _ _ _ _ _ plain
    simp only [List.cons_append, List.nil_append]
    have loud : ¬ (c.toNat < 0x20 ∨ c = '\\') := fun h => h.elim plain slash
    rw [scanString, if_neg loud]
    · rfl
    · exact quote
    · intro _ _ _ _ _ same
      exact absurd same slash
    · intro _ _ same
      exact absurd same slash

theorem scanString_flatMap (cs : List Char) (fuel : Nat) (read rest : List Char) (enough : cs.length < fuel) :
    scanString fuel (some read) (cs.flatMap escapeChar ++ '"' :: rest) =
      some (some (read.reverse ++ cs), rest) := by
  induction cs generalizing fuel read with
  | nil =>
      obtain ⟨fuel, rfl⟩ := Nat.exists_eq_succ_of_ne_zero (Nat.ne_of_gt enough)
      simp [scanString]
  | cons c cs ih =>
      obtain ⟨fuel, rfl⟩ := Nat.exists_eq_succ_of_ne_zero (Nat.ne_of_gt (Nat.lt_of_le_of_lt (Nat.zero_le _) enough))
      rw [List.flatMap_cons, List.append_assoc, scanString_escapeChar, ih fuel (c :: read) (Nat.lt_of_succ_lt_succ enough)]
      simp

theorem length_le_flatMap_escapeChar (cs : List Char) : cs.length ≤ (cs.flatMap escapeChar).length := by
  induction cs with
  | nil => exact Nat.le_refl 0
  | cons c cs ih =>
      have some : 0 < (escapeChar c).length := by
        unfold escapeChar
        repeat' split
        all_goals simp [fourDigits]
      rw [List.flatMap_cons, List.length_append, List.length_cons]
      omega

/-! ## Numbers -/

/-- What may come behind a value in the text of a document. -/
def Ends (rest : List Char) : Prop := ∀ c more, rest = c :: more → c = ',' ∨ c = ']' ∨ c = '\x7d'

theorem Ends.nil : Ends [] := fun _ _ h => nomatch h

theorem ends_printItems (js : List Json) (rest : List Char) : Ends (printItems js ++ rest) := by
  cases js with
  | nil => rintro c more ⟨⟩; simp
  | cons j js => rintro c more ⟨⟩; simp

theorem ends_printMembers (ms : List (String × Json)) (rest : List Char) : Ends (printMembers ms ++ rest) := by
  cases ms with
  | nil => rintro c more ⟨⟩; simp
  | cons m ms => rintro c more ⟨⟩; simp

namespace Numeral

/-- The digits of a number, as numbers. -/
def digitsOf (n : Nat) : List Nat := (Nat.toDigits 10 n).map fun c => c.toNat - '0'.toNat

theorem ofDigits_digitsOf (n : Nat) : ofDigits (digitsOf n) = n := by
  rw [ofDigits, digitsOf, List.foldl_map]
  simp only [Nat.mul_comm _ 10]
  rw [← Nat.ofDigitChars_eq_foldl]
  exact Nat.ofDigitChars_ten_toDigits

theorem spanDigits_append {cs rest : List Char} (digits : ∀ c ∈ cs, c.isDigit = true) (ends : Ends rest) :
    spanDigits (cs ++ rest) = (cs.map fun c => c.toNat - '0'.toNat, rest) := by
  induction cs with
  | nil => cases rest with
    | nil => rfl
    | cons c more =>
        have none : c.isDigit = false := by
          rcases ends c more rfl with rfl | rfl | rfl <;> rfl
        simp [spanDigits, none]
  | cons c cs ih =>
      obtain ⟨first, later⟩ := List.forall_mem_cons.1 digits
      simp [spanDigits, first, ih later]

theorem value_digitChar : ∀ n < 10, (Nat.digitChar n).toNat - '0'.toNat = n := by decide

/-- A number does not begin with a zero, unless it is zero. -/
theorem digitsOf_head {n : Nat} (pos : 0 < n) : ∃ d ds, digitsOf n = d :: ds ∧ d ≠ 0 := by
  induction n using Nat.strongRecOn with
  | ind n ih =>
      by_cases small : n < 10
      · refine ⟨n, [], ?_, Nat.ne_of_gt pos⟩
        rw [digitsOf, Nat.toDigits_of_lt_base small, List.map_singleton, value_digitChar n small]
      · obtain ⟨d, ds, digits, some⟩ := ih (n / 10) (by omega) (by omega)
        rw [digitsOf] at digits ⊢
        rw [Nat.toDigits_of_base_le (by decide) (by omega), List.map_append, digits]
        exact ⟨d, _, rfl, some⟩

theorem scanWhole_toDigits (n : Nat) {rest : List Char} (ends : Ends rest) :
    scanWhole (Nat.toDigits 10 n ++ rest) = some (digitsOf n, rest) := by
  have span : spanDigits (Nat.toDigits 10 n ++ rest) = (digitsOf n, rest) :=
    spanDigits_append (fun c member => Nat.isDigit_of_mem_toDigits (by decide) (by decide) member) ends
  rw [scanWhole, span]
  rcases Nat.eq_zero_or_pos n with rfl | pos
  · rfl
  · obtain ⟨d, ds, digits, some⟩ := digitsOf_head pos
    rw [digits]
    obtain ⟨d, rfl⟩ := Nat.exists_eq_succ_of_ne_zero some
    rfl

/-- The digits of a number are a numeral without places and power. -/
theorem scan_toDigits (negative : Bool) (n : Nat) {rest : List Char} (ends : Ends rest) :
    scan negative (Nat.toDigits 10 n ++ rest) = some (⟨negative, digitsOf n, [], none⟩, rest) := by
  rw [scan, scanWhole_toDigits n ends]
  cases rest with
  | nil => rfl
  | cons c more => rcases ends c more rfl with rfl | rfl | rfl <;> rfl

theorem value_digitsOf (negative : Bool) {n : Nat} (fits : n ≤ maxSignificand)
    (low : negative = true → n ≠ 0 ∧ n ≤ 0x8000000000000000) :
    value ⟨negative, digitsOf n, [], none⟩ = .int (if negative then -(n : Int) else n) := by
  rw [value]
  simp only [ofDigits_digitsOf]
  rw [if_pos ⟨trivial, trivial, fits, low⟩]

end Numeral

/-! ## Values -/

theorem skipBlanks_cons {c : Char} (cs : List Char) (solid : isBlank c = false) : skipBlanks (c :: cs) = c :: cs := by
  rw [skipBlanks, List.dropWhile_cons_of_neg (by simp [solid])]

theorem digit_cases {c : Char} (digit : c.isDigit = true) :
    c = '0' ∨ c = '1' ∨ c = '2' ∨ c = '3' ∨ c = '4' ∨ c = '5' ∨ c = '6' ∨ c = '7' ∨ c = '8' ∨ c = '9' := by
  have bounds : 48 ≤ c.toNat ∧ c.toNat ≤ 57 := by
    rw [Char.isDigit, Bool.and_eq_true, decide_eq_true_iff, decide_eq_true_iff] at digit
    exact ⟨UInt32.le_iff_toNat_le.1 digit.1, UInt32.le_iff_toNat_le.1 digit.2⟩
  have code {n : Nat} (same : c.toNat = n) : c = Char.ofNat n := by rw [← same, Char.ofNat_toNat]
  obtain ⟨low, high⟩ := bounds
  have cases : c.toNat = 48 ∨ c.toNat = 49 ∨ c.toNat = 50 ∨ c.toNat = 51 ∨ c.toNat = 52 ∨ c.toNat = 53 ∨
      c.toNat = 54 ∨ c.toNat = 55 ∨ c.toNat = 56 ∨ c.toNat = 57 := by omega
  rcases cases with h | h | h | h | h | h | h | h | h | h <;> rw [code h] <;> decide

/-- A value that begins with a digit is a number. -/
theorem scanValue_digits {c : Char} (digit : c.isDigit = true) (fuel depth : Nat) (cs : List Char) :
    scanValue (fuel + 1) depth (c :: cs) =
      (Numeral.scan false (c :: cs)).bind fun scanned => some (scanned.1.value, scanned.2) := by
  rcases digit_cases digit with rfl | rfl | rfl | rfl | rfl | rfl | rfl | rfl | rfl | rfl <;> rfl

theorem scanValue_int {n : Int} (low : -0x8000000000000000 ≤ n) (high : n ≤ 0xFFFFFFFFFFFFFFFF) (fuel depth : Nat)
    {rest : List Char} (ends : Ends rest) :
    scanValue (fuel + 1) depth (intText n ++ rest) = some (.int n, rest) := by
  have most : Numeral.maxSignificand = 0xFFFFFFFFFFFFFFFF := rfl
  rw [intText]
  split
  · have value := Numeral.value_digitsOf true (n := n.natAbs) (by omega) (by omega)
    show (Numeral.scan true (Nat.toDigits 10 n.natAbs ++ rest)).bind
      (fun scanned => some (scanned.1.value, scanned.2)) = _
    rw [Numeral.scan_toDigits true n.natAbs ends, Option.bind_some, value, if_pos rfl]
    rw [show -(n.natAbs : Int) = n by omega]
  · obtain ⟨c, cs, digits⟩ := List.exists_cons_of_ne_nil (Nat.toDigits_ne_nil (n := n.natAbs) (b := 10))
    have digit : c.isDigit = true :=
      Nat.isDigit_of_mem_toDigits (b := 10) (n := n.natAbs) (by decide) (by decide) (by rw [digits]; exact List.mem_cons_self)
    have value := Numeral.value_digitsOf false (n := n.natAbs) (by omega) (by simp)
    rw [digits, List.cons_append, scanValue_digits digit, ← List.cons_append, ← digits,
      Numeral.scan_toDigits false n.natAbs ends, Option.bind_some, value, if_neg Bool.false_ne_true]
    rw [show (n.natAbs : Int) = n by omega]

theorem printString_append (s : String) (rest : List Char) :
    printString s ++ rest = '"' :: (s.toList.flatMap escapeChar ++ '"' :: rest) := by
  simp [printString]

/-- The length of what is left is enough to read a text. -/
theorem scanString_key (s : String) (rest : List Char) :
    scanString ((s.toList.flatMap escapeChar ++ '"' :: rest).length + 1) (some [])
      (s.toList.flatMap escapeChar ++ '"' :: rest) = some (some s.toList, rest) := by
  have length := length_le_flatMap_escapeChar s.toList
  exact scanString_flatMap s.toList _ [] rest (by rw [List.length_append]; omega)

theorem scanValue_string (s : String) (fuel depth : Nat) (rest : List Char) :
    scanValue (fuel + 1) depth (printString s ++ rest) = some (.string s, rest) := by
  rw [printString_append]
  show (scanString _ (some []) _).bind (fun scanned => some (ofChars? scanned.1, scanned.2)) = _
  rw [scanString_key, Option.bind_some, ofChars?, String.ofList_toList]

/-! ## Documents -/

/-- The text of a document begins with a character that is neither blank nor the end of an array. -/
theorem print_head : ∀ {j : Json}, j.IsExact → ∃ c cs, print j = c :: cs ∧ isBlank c = false ∧ c ≠ ']'
  | .null, _ => ⟨_, _, rfl, rfl, by decide⟩
  | .bool true, _ => ⟨_, _, rfl, rfl, by decide⟩
  | .bool false, _ => ⟨_, _, rfl, rfl, by decide⟩
  | .string _, _ => ⟨_, _, rfl, rfl, by decide⟩
  | .array [], _ => ⟨_, _, rfl, rfl, by decide⟩
  | .array (_ :: _), _ => ⟨_, _, rfl, rfl, by decide⟩
  | .object [], _ => ⟨_, _, rfl, rfl, by decide⟩
  | .object ((_, _) :: _), _ => ⟨_, _, rfl, rfl, by decide⟩
  | .int n, _ => by
      rw [print, intText]
      split
      · exact ⟨_, _, rfl, rfl, by decide⟩
      · obtain ⟨c, cs, digits⟩ := List.exists_cons_of_ne_nil (Nat.toDigits_ne_nil (n := n.natAbs) (b := 10))
        have digit : c.isDigit = true :=
          Nat.isDigit_of_mem_toDigits (b := 10) (n := n.natAbs) (by decide) (by decide)
            (by rw [digits]; exact List.mem_cons_self)
        refine ⟨c, cs, digits, ?_⟩
        rcases digit_cases digit with rfl | rfl | rfl | rfl | rfl | rfl | rfl | rfl | rfl | rfl <;> decide

theorem length_print_pos {j : Json} (exact : j.IsExact) : 0 < (print j).length := by
  obtain ⟨c, cs, text, -⟩ := print_head exact
  rw [text]
  exact Nat.succ_pos _

theorem scanValue_items {c : Char} (cs : List Char) (fuel depth : Nat) (solid : isBlank c = false) (other : c ≠ ']') :
    scanValue (fuel + 1) depth ('[' :: c :: cs) = (scanValue fuel (depth - 1) (c :: cs)).bind fun one =>
      (scanItems fuel (depth - 1) one.2).bind fun more => some (arrayWithin depth (one.1 :: more.1), more.2) := by
  have bracket : isBlank '[' = false := rfl
  simp only [scanValue, skipBlanks_cons _ bracket, skipBlanks_cons cs solid]
  split
  · rename_i same
    cases same
    exact absurd rfl other
  · rfl

theorem scanValue_members (cs : List Char) (fuel depth : Nat) :
    scanValue (fuel + 1) depth ('\x7b' :: '"' :: cs) = (scanMember fuel (depth - 1) ('"' :: cs)).bind fun one =>
      (scanMembers fuel (depth - 1) one.2).bind fun more => some (objectWithin depth (one.1 :: more.1), more.2) := rfl

theorem objectWithin_chars {depth : Nat} (pos : 0 < depth) (members : List (String × Json)) :
    objectWithin depth (members.map fun m => (some m.1.toList, m.2)) = .object members := by
  have read : (members.map fun m => (some m.1.toList, m.2)).mapM
      (fun m => m.1.map fun k => (String.ofList k, m.2)) = some members := by
    induction members with
    | nil => rfl
    | cons m rest ih => simp [ih]
  rw [objectWithin, read]
  exact if_neg (Nat.ne_of_gt pos)

mutual

/-- A document is read from its text, up to the end of it. -/
theorem scanValue_print : ∀ (j : Json) (fuel depth : Nat) (rest : List Char), j.IsExact → j.depth ≤ depth →
    (print j).length ≤ fuel → Ends rest → scanValue fuel depth (print j ++ rest) = some (j, rest)
  | _, 0, _, _, exact, _, enough, _ => absurd enough (Nat.not_le.2 (length_print_pos exact))
  | .null, _ + 1, _, _, _, _, _, _ => rfl
  | .bool true, _ + 1, _, _, _, _, _, _ => rfl
  | .bool false, _ + 1, _, _, _, _, _, _ => rfl
  | .int _, fuel + 1, depth, _, exact, _, _, ends => scanValue_int exact.1 exact.2 fuel depth ends
  | .string s, fuel + 1, depth, rest, _, _, _, _ => scanValue_string s fuel depth rest
  | .array [], _ + 1, depth, rest, _, nested, _, _ => by
      have room : depth ≠ 0 := Nat.ne_of_gt nested
      show some (arrayWithin depth [], rest) = _
      rw [arrayWithin, if_neg room]
  | .array (j :: js), fuel + 1, depth, rest, exact, nested, enough, ends => by
      obtain ⟨c, cs, text, solid, other⟩ := print_head exact.1
      simp only [print, List.length_cons, List.length_append] at enough
      simp only [Json.depth, depthOfItems] at nested
      have one := scanValue_print j fuel (depth - 1) _ exact.1 (by omega) (by omega) (ends_printItems js rest)
      have more := scanItems_print js fuel (depth - 1) rest exact.2 (by omega) (by omega)
      have split : print (.array (j :: js)) ++ rest = '[' :: (print j ++ (printItems js ++ rest)) := by
        simp [print]
      rw [text, List.cons_append] at one split
      rw [split, scanValue_items _ fuel depth solid other, one, Option.bind_some, more, Option.bind_some,
        arrayWithin, if_neg (by omega)]
  | .object [], _ + 1, depth, rest, _, nested, _, _ => by
      have room : 0 < depth := nested
      show some (objectWithin depth [], rest) = _
      rw [← List.map_nil, objectWithin_chars room]
  | .object ((k, j) :: ms), fuel + 1, depth, rest, exact, nested, enough, ends => by
      simp only [print, List.length_cons, List.length_append] at enough
      simp only [Json.depth, depthOfMembers] at nested
      have one := scanMember_print k j fuel (depth - 1) _ exact.1 (by omega) (by omega) (ends_printMembers ms rest)
      have more := scanMembers_print ms fuel (depth - 1) rest exact.2 (by omega) (by omega)
      have split : print (.object ((k, j) :: ms)) ++ rest =
          '\x7b' :: (printString k ++ ':' :: (print j ++ (printMembers ms ++ rest))) := by
        simp [print]
      obtain ⟨cs, quoted⟩ : ∃ cs, printString k ++ ':' :: (print j ++ (printMembers ms ++ rest)) = '"' :: cs :=
        ⟨_, rfl⟩
      rw [split, quoted, scanValue_members, ← quoted, one, Option.bind_some, more, Option.bind_some]
      exact congrArg (fun members => some (members, rest)) (objectWithin_chars (by omega) ((k, j) :: ms))

theorem scanItems_print : ∀ (js : List Json) (fuel depth : Nat) (rest : List Char), AreExact js →
    depthOfItems js ≤ depth → (printItems js).length ≤ fuel →
    scanItems fuel depth (printItems js ++ rest) = some (js, rest)
  | [], 0, _, _, _, _, enough => absurd enough (by simp [printItems])
  | _ :: _, 0, _, _, _, _, enough => absurd enough (by simp [printItems])
  | [], _ + 1, _, _, _, _, _ => rfl
  | j :: js, fuel + 1, depth, rest, exact, nested, enough => by
      simp only [printItems, List.length_cons, List.length_append] at enough
      simp only [depthOfItems] at nested
      have one := scanValue_print j fuel depth _ exact.1 (by omega) (by omega) (ends_printItems js rest)
      have more := scanItems_print js fuel depth rest exact.2 (by omega) (by omega)
      show ((scanValue fuel depth (print j ++ printItems js ++ rest)).bind fun one =>
        (scanItems fuel depth one.2).bind fun more => some (one.1 :: more.1, more.2)) = _
      rw [List.append_assoc, one, Option.bind_some, more, Option.bind_some]

theorem scanMember_print : ∀ (k : String) (j : Json) (fuel depth : Nat) (rest : List Char), j.IsExact →
    j.depth ≤ depth → (printString k).length + (print j).length ≤ fuel → Ends rest →
    scanMember fuel depth (printString k ++ ':' :: (print j ++ rest)) = some ((some k.toList, j), rest)
  | _, _, 0, _, _, exact, _, enough, _ => absurd enough (by have := length_print_pos exact; omega)
  | k, j, fuel + 1, depth, rest, exact, nested, enough, ends => by
      have quoted : 2 ≤ (printString k).length := by simp [printString]
      have value := scanValue_print j fuel depth _ exact nested (by omega) ends
      rw [printString_append]
      show (scanString _ (some []) _).bind _ = _
      rw [scanString_key]
      show (scanValue fuel depth (print j ++ rest)).bind (fun value => some ((some k.toList, value.1), value.2)) = _
      rw [value, Option.bind_some]

theorem scanMembers_print : ∀ (ms : List (String × Json)) (fuel depth : Nat) (rest : List Char), HaveExact ms →
    depthOfMembers ms ≤ depth → (printMembers ms).length ≤ fuel →
    scanMembers fuel depth (printMembers ms ++ rest) = some (ms.map fun m => (some m.1.toList, m.2), rest)
  | [], 0, _, _, _, _, enough => absurd enough (by simp [printMembers])
  | _ :: _, 0, _, _, _, _, enough => absurd enough (by simp [printMembers])
  | [], _ + 1, _, _, _, _, _ => rfl
  | (k, j) :: ms, fuel + 1, depth, rest, exact, nested, enough => by
      simp only [printMembers, List.length_cons, List.length_append] at enough
      simp only [depthOfMembers] at nested
      have one := scanMember_print k j fuel depth _ exact.1 (by omega) (by omega) (ends_printMembers ms rest)
      have more := scanMembers_print ms fuel depth rest exact.2 (by omega) (by omega)
      have split : printMembers ((k, j) :: ms) ++ rest =
          ',' :: (printString k ++ ':' :: (print j ++ (printMembers ms ++ rest))) := by
        simp [printMembers]
      rw [split]
      show ((scanMember fuel depth (printString k ++ ':' :: (print j ++ (printMembers ms ++ rest)))).bind fun one =>
        (scanMembers fuel depth one.2).bind fun more => some (one.1 :: more.1, more.2)) = _
      rw [one, Option.bind_some, more, Option.bind_some]
      rfl

end

/-- A document reads back from its text. -/
theorem ofText?_toText {j : Json} (exact : j.IsExact) (nested : j.depth ≤ maxNesting) :
    ofText? j.toText = some j := by
  have read := scanValue_print j (2 * j.print.length + 2) maxNesting [] exact nested (by omega) .nil
  rw [List.append_nil] at read
  rw [ofText?, toText, String.toList_ofList, read]
  rfl

end PegFlow.Json
