/-
# PegFlow.Proofs.Template.Parts -- what each part of an array, call or object gives

The parts of an array, the arguments of a call and the members of an object are evaluated one after
the other, and what one of them gives does not change what the others do
(`Template.evalParts_append`, `Template.evalMembers_append`).

A reference that leaves out a skipped capture should give no part when its slot is null and
otherwise the value that access reaches (`Scope.collapsed`). What is looked at, however, is whether
the value reached is null (`Scope.reached`). The two are the same exactly when nothing is reached
for in a skipped capture, and what is reached in another one is not null
(`Template.skipped_left_out_iff`).
-/
import PegFlow.Grammar.Constants

namespace PegFlow

set_option autoImplicit false

namespace Scope

/-- What is in a slot, counted from zero: null when the capture was skipped. -/
def captured (s : Scope) (i : Nat) : Value := s.slots[i]?.getD .null

/-- No part for a skipped capture, and otherwise the value that access reaches in it. -/
def collapsed (s : Scope) (i : Nat) (access : List Access) : Except Fault (List Value) :=
  match s.captured i with
  | .null => .ok []
  | v => do return [← Template.reach access v]

/-- No part when access reaches null, and otherwise the value that it reaches. -/
def reached (s : Scope) (i : Nat) (access : List Access) : Except Fault (List Value) := do
  let v ← Template.reach access (s.captured i)
  return if v.isNull then [] else [v]

theorem slot_of_single {s : Scope} {i : Nat} (single : s.isRepeated i = false) (collapse : Bool) :
    s.slot i collapse = s.captured i := by
  rw [slot, single]
  rfl

end Scope

theorem Value.isNull_iff {v : Value} : v.isNull = true ↔ v = .null := by
  cases v <;> simp [isNull]

/-- Nothing can be reached in null. -/
theorem Access.follow_null (step : Access) (rest : List Access) : ∃ e, follow (step :: rest) .null = .error e := by
  cases step with
  | property key => exact ⟨.notAnObject key .null, rfl⟩
  | index n => exact ⟨.notIndexable n .null, rfl⟩

namespace Scope

/-- What is left out is what should be, but for access in skipped captures and for nulls in other
ones. -/
theorem reached_eq_collapsed_iff (s : Scope) (i : Nat) (access : List Access) :
    s.reached i access = s.collapsed i access ↔
      (s.captured i = .null → access = []) ∧
        (s.captured i ≠ .null → Template.reach access (s.captured i) ≠ .ok .null) := by
  by_cases skipped : s.captured i = .null
  · rw [reached, collapsed, skipped]
    cases access with
    | nil => exact iff_of_true rfl ⟨fun _ => rfl, fun present => absurd rfl present⟩
    | cons step rest =>
        obtain ⟨e, fails⟩ := Access.follow_null step rest
        rw [Template.reach, fails]
        exact iff_of_false nofun fun h => List.cons_ne_nil _ _ (h.1 rfl)
  · have given : s.collapsed i access = do return [← Template.reach access (s.captured i)] := by
      rw [collapsed.eq_def]
      split
      · rename_i null
        exact absurd null skipped
      · rfl
    rw [reached, given]
    cases value : Template.reach access (s.captured i) with
    | error e => exact iff_of_true rfl ⟨fun null => absurd null skipped, fun _ => nofun⟩
    | ok v =>
        by_cases null : v = .null
        · subst null
          exact iff_of_false nofun fun h => h.2 skipped rfl
        · have kept : v.isNull = false := by rwa [← Bool.not_eq_true, Value.isNull_iff]
          refine iff_of_true ?_ ⟨fun null => absurd null skipped, fun _ same => null (Except.ok.inj same)⟩
          show Except.ok (if v.isNull then [] else [v]) = .ok [v]
          rw [kept]
          rfl

end Scope

namespace Template

variable {s : Scope}

/-- What comes before and what comes after do not change one another. -/
theorem evalParts_append (s : Scope) (before after : List Template) :
    evalParts s (before ++ after) = do return (← evalParts s before) ++ (← evalParts s after) := by
  induction before with
  | nil =>
      rw [List.nil_append, evalParts]
      exact (bind_pure (evalParts s after)).symm
  | cons t rest ih =>
      obtain ⟨kind, access, pos⟩ := t
      rw [List.cons_append, evalParts, evalParts, ih]
      simp only [bind_assoc, pure_bind, List.append_assoc]

theorem evalMembers_append (s : Scope) (built : Keyed Value) (before after : List Member) :
    evalMembers s built (before ++ after) =
      evalMembers s built before >>= fun known => evalMembers s known after := by
  induction before generalizing built with
  | nil => rw [evalMembers]; rfl
  | cons m rest ih =>
      cases m with
      | pair key t =>
          obtain ⟨kind, access, pos⟩ := t
          rw [List.cons_append, evalMembers, evalMembers]
          simp only [bind_assoc]
          refine bind_congr fun v => bind_congr fun v => ?_
          split
          · exact ih built
          · exact ih _
      | merge t =>
          rw [List.cons_append, evalMembers, evalMembers]
          simp only [bind_assoc, ih]

/-- A reference, counted from zero, that leaves out skipped captures. -/
def skipping (i : Nat) (access : List Access) (pos : Option SourcePosition) : Template :=
  ⟨.backRef (i + 1) true, access, pos⟩

theorem evalParts_skipping {i : Nat} (single : s.isRepeated i = false) (access : List Access)
    (pos : Option SourcePosition) (rest : List Template) :
    evalParts s (skipping i access pos :: rest) =
      do return (← s.reached i access) ++ (← evalParts s rest) := by
  rw [skipping, evalParts, evalKind, Scope.slot_of_single single]
  show (do
    let here ← (do
      let v ← reach access (s.captured i)
      return if !s.isRepeated i && v.isNull then [] else [v])
    return here ++ (← evalParts s rest)) = _
  rw [single]
  rfl

theorem evalMembers_skipping {i : Nat} (single : s.isRepeated i = false) (access : List Access)
    (pos : Option SourcePosition) (built : Keyed Value) (key : String) (rest : List Member) :
    evalMembers s built (.pair key (skipping i access pos) :: rest) =
      s.reached i access >>= fun given => evalMembers s (built.insertAll (given.map (key, ·))) rest := by
  rw [skipping, evalMembers, evalKind, Scope.slot_of_single single]
  show (do
    let v ← reach access (s.captured i)
    if !s.isRepeated i && v.isNull then evalMembers s built rest
    else evalMembers s (built.insert key v) rest) = _
  rw [single, Scope.reached]
  cases reach access (s.captured i) with
  | error e => rfl
  | ok v =>
      show ite (v.isNull = true) _ _ =
        evalMembers s (built.insertAll (List.map _ (if v.isNull then [] else [v]))) rest
      cases v.isNull <;> rfl

/-- A reference that leaves out a skipped capture gives its part, or none, at its place among the
others, which are what they are without it. This is no part for null in the slot and otherwise the
value reached, unless there is access in a skipped capture or a null reached in another one. -/
theorem skipped_left_out_iff {i : Nat} (single : s.isRepeated i = false) (access : List Access)
    (pos : Option SourcePosition) :
    (∀ before after, evalKind s (.array (before ++ skipping i access pos :: after)) = do
      let first ← evalParts s before
      let given ← s.reached i access
      return .array (first ++ given ++ (← evalParts s after))) ∧
    (∀ name f, s.library.callbacks.get? name = some f → ∀ before after,
      evalKind s (.call name (before ++ skipping i access pos :: after)) = do
        let first ← evalParts s before
        let given ← s.reached i access
        invoke name f (first ++ given ++ (← evalParts s after))) ∧
    (∀ before key after, evalKind s (.object (before ++ .pair key (skipping i access pos) :: after)) = do
      let first ← evalMembers s [] before
      let given ← s.reached i access
      return .object (← evalMembers s (first.insertAll (given.map (key, ·))) after)) ∧
    (s.reached i access = s.collapsed i access ↔
      (s.captured i = .null → access = []) ∧
        (s.captured i ≠ .null → reach access (s.captured i) ≠ .ok .null)) := by
  have placed : ∀ before after, evalParts s (before ++ skipping i access pos :: after) = do
      let first ← evalParts s before
      let given ← s.reached i access
      return first ++ given ++ (← evalParts s after) := by
    intro before after
    rw [evalParts_append, evalParts_skipping single]
    simp only [bind_assoc, pure_bind, List.append_assoc]
  refine ⟨fun before after => ?_, fun name f known before after => ?_, fun before key after => ?_,
    s.reached_eq_collapsed_iff i access⟩
  · rw [evalKind, placed]
    simp only [bind_assoc, pure_bind]
  · rw [evalKind, known, placed]
    simp only [bind_assoc, pure_bind]
  · rw [evalKind, evalMembers_append, bind_assoc]
    simp only [evalMembers_skipping single, bind_assoc]

/-- A skipped capture and one that holds an object. -/
def skippedThenObject : Scope :=
  { Scope.ofLibrary {} with layout := [false, false], slots := [.null, .object [("at", .int 1), ("by", .null)]] }

/-- Both captures as parts: the skipped one is left out and the other one is there. Access in the
skipped one is a fault, and a null in the other one is left out. -/
theorem skipped_left_out_iff_before_object :
    skippedThenObject.isRepeated 0 = false ∧ skippedThenObject.isRepeated 1 = false ∧
    evalKind skippedThenObject (.array [literal (.int 0), skipping 1 [.property "at"] none, literal (.int 2)]) =
      .ok (.array [.int 0, .int 1, .int 2]) ∧
    evalKind skippedThenObject (.object [.pair "x" (skipping 0 [] none), .pair "y" (literal (.int 2))]) =
      .ok (.object [("y", .int 2)]) ∧
    skippedThenObject.reached 0 [] = skippedThenObject.collapsed 0 [] ∧
    skippedThenObject.reached 0 [.property "at"] ≠ skippedThenObject.collapsed 0 [.property "at"] ∧
    skippedThenObject.reached 1 [.property "by"] ≠ skippedThenObject.collapsed 1 [.property "by"] := by
  obtain ⟨arrays, -, -, -⟩ := skipped_left_out_iff (s := skippedThenObject) (i := 1) rfl [.property "at"] none
  obtain ⟨-, -, objects, asIs⟩ := skipped_left_out_iff (s := skippedThenObject) (i := 0) rfl [] none
  obtain ⟨-, -, -, inSkipped⟩ := skipped_left_out_iff (s := skippedThenObject) (i := 0) rfl [.property "at"] none
  obtain ⟨-, -, -, toNull⟩ := skipped_left_out_iff (s := skippedThenObject) (i := 1) rfl [.property "by"] none
  refine ⟨rfl, rfl, arrays [literal (.int 0)] [literal (.int 2)], objects [] "x" [.pair "y" (literal (.int 2))],
    asIs.2 ⟨fun _ => rfl, fun present => absurd rfl present⟩, fun same => ?_, fun same => ?_⟩
  · exact List.cons_ne_nil _ _ ((inSkipped.1 same).1 rfl)
  · exact (toNull.1 same).2 nofun rfl

end Template

end PegFlow
