/-
# PegFlow.Proofs.Program.Relocate -- fragments at other places

A fragment is the same wherever it is placed and wherever it goes on: moving its ops from
one place to another, its exits with them, gives the fragment at that place
(`Fragment.Movable`). This holds of every fragment of a grammar, by induction on its tree
(`Matcher.fragment_movable`, `Token.fragment_movable`, `Pattern.fragment_movable`).

So an op of a fragment names no other places than those of the fragment and its two exits
(`Fragment.Movable.targets`).
-/
import PegFlow.Proofs.Program.Layout

namespace PegFlow

set_option autoImplicit false

namespace Op

/-- The places that an op names. -/
def targets : Op → List Nat
  | .enter next => [next]
  | .commit next => [next]
  | .rollback next => [next]
  | .lookEnter next => [next]
  | .lookExit next => [next]
  | .pushNulls _ next => [next]
  | .loopEnter body => [body]
  | .loopNext body _ pass fail => [body, pass, fail]
  | .loopExit _ pass fail => [pass, fail]
  | .captureStart next => [next]
  | .captureEnd _ _ next => [next]
  | .captureFail next => [next]
  | .terminal _ pass fail => [pass, fail]
  | .call _ pass fail => [pass, fail]
  | .output _ next => [next]
  | .ret => []
  | .retFail => []
  | .accept => []
  | .reject => []

/-- The op with other places for those it names. -/
def relocate (μ : Nat → Nat) : Op → Op
  | .enter next => .enter (μ next)
  | .commit next => .commit (μ next)
  | .rollback next => .rollback (μ next)
  | .lookEnter next => .lookEnter (μ next)
  | .lookExit next => .lookExit (μ next)
  | .pushNulls slots next => .pushNulls slots (μ next)
  | .loopEnter body => .loopEnter (μ body)
  | .loopNext body least pass fail => .loopNext (μ body) least (μ pass) (μ fail)
  | .loopExit least pass fail => .loopExit least (μ pass) (μ fail)
  | .captureStart next => .captureStart (μ next)
  | .captureEnd slot ofRule next => .captureEnd slot ofRule (μ next)
  | .captureFail next => .captureFail (μ next)
  | .terminal id pass fail => .terminal id (μ pass) (μ fail)
  | .call ruleset pass fail => .call ruleset (μ pass) (μ fail)
  | .output rule next => .output rule (μ next)
  | .ret => .ret
  | .retFail => .retFail
  | .accept => .accept
  | .reject => .reject

variable {μ : Nat → Nat} {o : Op}

theorem relocate_eq_self_iff : o.relocate μ = o ↔ ∀ t ∈ o.targets, μ t = t := by
  cases o <;> simp [relocate, targets]

end Op

/-- The code with other places for those it names. -/
def Code.relocate (μ : Nat → Nat) (code : Code) : Code := ⟨code.ops.map (Op.relocate μ), μ code.entry⟩

namespace Fragment

/-- Moving the fragment and its exits gives the fragment where it is moved to. -/
def Movable (f : Fragment) : Prop :=
  ∀ (μ : Nat → Nat) (base base' pass fail : Nat),
    (∀ i < (f base pass fail).ops.length, μ (base + i) = base' + i) →
    f base' (μ pass) (μ fail) = (f base pass fail).relocate μ

namespace Movable

variable {f g : Fragment}

theorem pass : Fragment.pass.Movable := fun _ _ _ _ _ _ => rfl

theorem fail : Fragment.fail.Movable := fun _ _ _ _ _ _ => rfl

theorem terminal (id : Nat) : (Fragment.terminal id).Movable := by
  intro μ base base' pass fail moved
  have first : μ base = base' := moved 0 Nat.one_pos
  simp [Fragment.terminal, Code.relocate, Op.relocate, first]

theorem call (ruleset : Nat) : (Fragment.call ruleset).Movable := by
  intro μ base base' pass fail moved
  have first : μ base = base' := moved 0 Nat.one_pos
  simp [Fragment.call, Code.relocate, Op.relocate, first]

/-- The second of two stretches of ops is moved as far as the first. -/
theorem moved_right {μ : Nat → Nat} {base base' : Nat} (k : Nat) {n m : Nat} (le : k + m ≤ n)
    (moved : ∀ i < n, μ (base + i) = base' + i) : ∀ i < m, μ (base + k + i) = base' + k + i := by
  intro i lt
  have := moved (k + i) (by omega)
  rwa [← Nat.add_assoc, ← Nat.add_assoc] at this

theorem orElse (one : f.Movable) (other : g.Movable) : (f.orElse g).Movable := by
  intro μ base base' pass fail moved
  simp only [Fragment.orElse, List.length_append] at moved
  have second := other μ base base' pass fail fun i lt => moved i (by omega)
  have first := one μ _ _ pass (g base pass fail).entry (moved_right _ (Nat.le_refl _) moved)
  have length : (g base' (μ pass) (μ fail)).ops.length = (g base pass fail).ops.length := by
    rw [second, Code.relocate, List.length_map]
  have entry : (g base' (μ pass) (μ fail)).entry = μ (g base pass fail).entry := by
    rw [second, Code.relocate]
  simp only [Fragment.orElse, length, entry]
  rw [first, second]
  simp only [Code.relocate, List.map_append]

theorem andThen (one : f.Movable) (other : g.Movable) : (f.andThen g).Movable := by
  intro μ base base' pass fail moved
  simp only [Fragment.andThen, List.length_append] at moved
  have second := other μ base base' pass fail fun i lt => moved i (by omega)
  have first := one μ _ _ (g base pass fail).entry fail (moved_right _ (Nat.le_refl _) moved)
  have length : (g base' (μ pass) (μ fail)).ops.length = (g base pass fail).ops.length := by
    rw [second, Code.relocate, List.length_map]
  have entry : (g base' (μ pass) (μ fail)).entry = μ (g base pass fail).entry := by
    rw [second, Code.relocate]
  simp only [Fragment.andThen, length, entry]
  rw [first, second]
  simp only [Code.relocate, List.map_append]

/-- A body between two ops before it and one behind it, to which it may go on. -/
theorem around (body : f.Movable) {μ : Nat → Nat} {base base' whole : Nat} (pass fail : Nat)
    (size : whole = (f (base + 2) pass fail).ops.length + 3)
    (moved : ∀ i < whole, μ (base + i) = base' + i) :
    μ base = base' ∧ μ (base + 1) = base' + 1 ∧
      μ (base + 2 + (f (base + 2) pass fail).ops.length) =
        base' + 2 + (f (base + 2) pass fail).ops.length ∧
      f (base' + 2) (μ pass) (μ fail) = (f (base + 2) pass fail).relocate μ := by
  subst size
  refine ⟨moved 0 (by omega), moved 1 (by omega), ?_, ?_⟩
  · exact moved_right 2 (m := (f (base + 2) pass fail).ops.length + 1) (by omega) moved _ (by omega)
  · exact body μ _ _ pass fail (moved_right 2 (by omega) moved)

theorem atomically (body : f.Movable) : f.atomically.Movable := by
  intro μ base base' pass fail moved
  obtain ⟨zero, one, last, inner⟩ := body.around (base + 1) base (by simp [Fragment.atomically]) moved
  rw [zero, one] at inner
  simp only [Fragment.atomically, inner]
  simp [Code.relocate, Op.relocate, last]

theorem lookahead (body : f.Movable) : f.lookahead.Movable := by
  intro μ base base' pass fail moved
  obtain ⟨zero, one, last, inner⟩ := body.around base (base + 1) (by simp [Fragment.lookahead]) moved
  rw [zero, one] at inner
  simp only [Fragment.lookahead, inner]
  simp [Code.relocate, Op.relocate, last]

theorem negativeLookahead (body : f.Movable) : f.negativeLookahead.Movable := by
  intro μ base base' pass fail moved
  obtain ⟨zero, one, last, inner⟩ := body.around (base + 1) base (by simp [Fragment.negativeLookahead]) moved
  rw [zero, one] at inner
  simp only [Fragment.negativeLookahead, inner]
  simp [Code.relocate, Op.relocate, last]

theorem loop (least : Nat) (body : f.Movable) : (f.loop least).Movable := by
  intro μ base base' pass fail moved
  obtain ⟨zero, one, last, inner⟩ := body.around (base + 1) base (by simp [Fragment.loop]) moved
  rw [zero, one] at inner
  simp only [Fragment.loop, inner]
  simp [Code.relocate, Op.relocate, last]

theorem capture (slot : Nat) (ofRule : Bool) (body : f.Movable) : (f.capture slot ofRule).Movable := by
  intro μ base base' pass fail moved
  obtain ⟨zero, one, last, inner⟩ := body.around base (base + 1) (by simp [Fragment.capture]) moved
  rw [zero, one] at inner
  simp only [Fragment.capture, inner]
  simp [Code.relocate, Op.relocate, last]

theorem optional (slots : List Nat) (body : f.Movable) : (f.optional slots).Movable := by
  intro μ base base' pass fail moved
  unfold Fragment.optional at moved ⊢
  by_cases none : slots.isEmpty
  · simp only [none, if_true] at moved ⊢
    exact body μ base base' pass pass moved
  · simp only [none] at moved ⊢
    have zero : μ base = base' := moved 0 (by simp)
    have inner := body μ (base + 1) (base' + 1) pass base
      (moved_right 1 (by simp [Nat.add_comm]) moved)
    rw [zero] at inner
    simp [inner, Code.relocate, Op.relocate]

theorem modified (required repeated ahead notAhead : Bool) (slots : List Nat) (body : f.Movable) :
    (f.modified required repeated ahead notAhead slots).Movable := by
  have counted : (if repeated then f.loop (if required then 1 else 0)
      else if required then f else f.optional slots).Movable := by
    cases repeated with
    | true => exact body.loop _
    | false =>
        cases required with
        | true => exact body
        | false => exact body.optional slots
  cases ahead with
  | true => exact counted.lookahead
  | false =>
      cases notAhead with
      | true => exact counted.negativeLookahead
      | false => exact counted

/-- An op of a movable fragment names places of the fragment and its exits only, and so it
begins at one of these. -/
theorem targets (body : f.Movable) (base pass fail : Nat) :
    (∀ o ∈ (f base pass fail).ops, ∀ t ∈ o.targets,
      (base ≤ t ∧ t < base + (f base pass fail).ops.length) ∨ t = pass ∨ t = fail) ∧
    ((base ≤ (f base pass fail).entry ∧
        (f base pass fail).entry < base + (f base pass fail).ops.length) ∨
      (f base pass fail).entry = pass ∨ (f base pass fail).entry = fail) := by
  -- only these places stay where they are when all others move
  let Stays (t : Nat) : Prop :=
    (base ≤ t ∧ t < base + (f base pass fail).ops.length) ∨ t = pass ∨ t = fail
  classical
  let μ : Nat → Nat := fun t => if Stays t then t else t + 1
  have stays : ∀ t, μ t = t → Stays t := by
    intro t fixed
    by_contra moves
    simp [μ, if_neg moves] at fixed
  have fixed : ∀ t, Stays t → μ t = t := fun t h => if_pos h
  have same := body μ base base pass fail fun i lt => fixed _ (Or.inl ⟨by omega, by omega⟩)
  rw [fixed pass (Or.inr (Or.inl rfl)), fixed fail (Or.inr (Or.inr rfl))] at same
  constructor
  · intro o member t named
    have ops : (f base pass fail).ops.map (Op.relocate μ) = (f base pass fail).ops :=
      (congrArg Code.ops same).symm
    have op : o.relocate μ = o := List.map_inj_left.1 (ops.trans (List.map_id _).symm) o member
    exact stays t (Op.relocate_eq_self_iff.1 op t named)
  · exact stays _ (congrArg Code.entry same).symm

end Movable

end Fragment

mutual

theorem Matcher.fragment_movable : ∀ m : Matcher, m.fragment.Movable
  | .literal _ terminal => by
      rw [Matcher.fragment]
      cases terminal with
      | none => exact .fail
      | some id => exact .terminal id
  | .charClass _ terminal => by
      rw [Matcher.fragment]
      cases terminal with
      | none => exact .fail
      | some id => exact .terminal id
  | .any terminal => by
      rw [Matcher.fragment]
      cases terminal with
      | none => exact .fail
      | some id => exact .terminal id
  | .ref _ target => by
      rw [Matcher.fragment]
      cases target with
      | none => exact .fail
      | some ruleset => exact .call ruleset
  | .group patterns => by
      rw [Matcher.fragment]
      exact Pattern.fragment_movable patterns
  | .capture patterns slot => by
      rw [Matcher.fragment]
      exact (Pattern.fragment_movable patterns).capture slot _

theorem Token.fragment_movable : ∀ ts : List Token, (Token.fragment ts).Movable
  | [] => by
      rw [Token.fragment]
      exact .pass
  | ⟨matcher, required, repeated, ahead, notAhead, _, _⟩ :: rest => by
      rw [Token.fragment]
      exact ((Matcher.fragment_movable matcher).modified required repeated ahead notAhead
        matcher.slots).andThen (Token.fragment_movable rest)

theorem Pattern.fragment_movable : ∀ ps : List Pattern, (Pattern.fragment ps).Movable
  | [] => by
      rw [Pattern.fragment]
      exact .fail
  | ⟨tokens, _, _⟩ :: rest => by
      rw [Pattern.fragment]
      refine Fragment.Movable.orElse ?_ (Pattern.fragment_movable rest)
      split
      · exact Token.fragment_movable tokens
      · exact (Token.fragment_movable tokens).atomically

end

end PegFlow
