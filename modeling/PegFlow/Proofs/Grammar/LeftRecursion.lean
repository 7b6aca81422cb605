/-
# PegFlow.Proofs.Grammar.LeftRecursion -- every left recursive ruleset is found

The closure of a graph holds every node that a path leads to (`Graph.closed_closure`): each
round but the last one adds a node. So a ruleset that reaches itself by calls at the start is on
a cycle of the graph that the grammar is searched for (`Graph.onCycle_of_transGen`), and the
annotation of the grammar warns of it (`Grammar.warned_of_callsFirst`).
-/
import PegFlow.Grammar.LeftRecursion
import PegFlow.Proofs.Grammar.Linked
import Mathlib.Data.Finset.Card
import Mathlib.Data.Finset.Range
import Mathlib.Data.Finset.Dedup
import Mathlib.Logic.Relation

namespace PegFlow

set_option autoImplicit false

open Relation

namespace Graph

variable {edges : List (List Nat)}

theorem mem_fresh {seen newest : List Nat} {j : Nat} :
    j ∈ fresh edges seen newest ↔ (∃ i ∈ newest, j ∈ successors edges i) ∧ j ∉ seen := by
  simp [fresh]

/-- A round that finds a node has seen more nodes. -/
theorem card_lt_of_mem_fresh {seen newest : List Nat} {i : Nat} (found : i ∈ fresh edges seen newest) :
    seen.toFinset.card < (seen ++ fresh edges seen newest).toFinset.card := by
  refine Finset.card_lt_card (Finset.ssubset_iff_of_subset ?_ |>.2 ⟨i, ?_, ?_⟩)
  · intro j member
    rw [List.mem_toFinset] at member ⊢
    exact List.mem_append_left _ member
  · exact List.mem_toFinset.2 (List.mem_append_right _ found)
  · exact fun old => (mem_fresh.1 found).2 (List.mem_toFinset.1 old)

/-- The successors of every node are among the nodes. -/
def Closed (edges : List (List Nat)) (nodes : List Nat) : Prop :=
  ∀ i ∈ nodes, ∀ j ∈ successors edges i, j ∈ nodes

/-- Nodes beside the newest have their successors among the nodes seen, and none lies beyond
the graph. -/
structure Explored (edges : List (List Nat)) (seen newest : List Nat) : Prop where
  older : ∀ i ∈ seen, i ∈ newest ∨ ∀ j ∈ successors edges i, j ∈ seen
  inside : ∀ i ∈ seen, i < edges.length

theorem Explored.card_le {seen newest : List Nat} (explored : Explored edges seen newest) :
    seen.toFinset.card ≤ edges.length := by
  rw [← Finset.card_range edges.length]
  refine Finset.card_le_card fun i member => ?_
  exact Finset.mem_range.2 (explored.inside i (List.mem_toFinset.1 member))

/-- When there is nothing fresh all that was seen is closed. -/
theorem Explored.closed {seen newest : List Nat} (explored : Explored edges seen newest)
    (none : fresh edges seen newest = []) : Closed edges seen := by
  intro i member j next
  rcases explored.older i member with new | old
  · by_contra unseen
    have found : j ∈ fresh edges seen newest := mem_fresh.2 ⟨⟨i, new, next⟩, unseen⟩
    rw [none] at found
    exact absurd found List.not_mem_nil
  · exact old j next

variable (bounded : ∀ i, ∀ j ∈ successors edges i, j < edges.length)

include bounded

theorem Explored.next {seen newest : List Nat} (explored : Explored edges seen newest) :
    Explored edges (seen ++ fresh edges seen newest) (fresh edges seen newest) := by
  refine ⟨fun i member => ?_, fun i member => ?_⟩
  · rcases List.mem_append.1 member with old | new
    · refine Or.inr fun j next => ?_
      by_cases known : j ∈ seen
      · exact List.mem_append_left _ known
      · rcases explored.older i old with recent | earlier
        · exact List.mem_append_right _ (mem_fresh.2 ⟨⟨i, recent, next⟩, known⟩)
        · exact absurd (earlier j next) known
    · exact Or.inl new
  · rcases List.mem_append.1 member with old | new
    · exact explored.inside i old
    · obtain ⟨⟨k, -, next⟩, -⟩ := mem_fresh.1 new
      exact bounded k i next

/-- By induction on the rounds: each one that goes on has seen a node more. -/
theorem closed_closure {rounds : Nat} {seen newest : List Nat} (explored : Explored edges seen newest)
    (enough : edges.length < rounds + seen.toFinset.card) :
    (∀ i ∈ seen, i ∈ closure edges rounds seen newest) ∧
      Closed edges (closure edges rounds seen newest) := by
  induction rounds generalizing seen newest with
  | zero =>
      have few := explored.card_le
      omega
  | succ rounds ih =>
      have next := explored.next bounded
      rw [closure]
      split
      · rename_i none
        exact ⟨fun i member => member, explored.closed none⟩
      · rename_i i rest found
        have more := card_lt_of_mem_fresh (found ▸ List.mem_cons_self)
        rw [found] at next more
        obtain ⟨kept, closed⟩ := ih next (by omega)
        exact ⟨fun j member => kept j (List.mem_append_left _ member), closed⟩

theorem closed_reachable {starts : List Nat} (inside : ∀ i ∈ starts, i < edges.length) :
    (∀ i ∈ starts, i ∈ reachable edges starts) ∧ Closed edges (reachable edges starts) := by
  have explored : Explored edges starts.eraseDups starts :=
    ⟨fun i member => Or.inl (List.mem_eraseDups.1 member),
      fun i member => inside i (List.mem_eraseDups.1 member)⟩
  cases starts with
  | nil =>
      have same : reachable edges [] = [] := by
        unfold reachable
        cases edges.length <;> rfl
      rw [same]
      exact ⟨List.forall_mem_nil _, List.forall_mem_nil _⟩
  | cons i rest =>
      have some : 0 < (i :: rest).eraseDups.toFinset.card :=
        Finset.card_pos.2 ⟨i, List.mem_toFinset.2 (List.mem_eraseDups.2 List.mem_cons_self)⟩
      obtain ⟨kept, closed⟩ := closed_closure bounded explored (Nat.lt_add_of_pos_right some)
      exact ⟨fun j member => kept j (List.mem_eraseDups.2 member), closed⟩

/-- A node that a path leads back to is found to be on a cycle. -/
theorem onCycle_of_transGen {i : Nat} (path : TransGen (fun i j => j ∈ successors edges i) i i) :
    onCycle edges i = true := by
  obtain ⟨starts, closed⟩ := closed_reachable bounded (bounded i)
  rw [onCycle, List.contains_iff_mem]
  have reached : ∀ j, TransGen (fun i j => j ∈ successors edges i) i j →
      j ∈ reachable edges (successors edges i) := by
    intro j path
    induction path with
    | single next => exact starts _ next
    | tail _ next ih => exact closed _ ih _ next
  exact reached i path

end Graph

/-! ## Calls at the start -/

section

variable {terminals : List Terminal} {n : Nat} {marks : List Bool}

mutual

theorem Matcher.leadingCalls_lt : ∀ x : Matcher, x.Every (Matcher.Linked terminals n) →
    ∀ i ∈ x.leadingCalls marks, i < n
  | .capture patterns _, every => Pattern.leadingCalls_lt patterns every
  | .group patterns, every => Pattern.leadingCalls_lt patterns every
  | .ref _ _, ⟨ruleset, target, lt⟩ => by
      rw [Matcher.leadingCalls, target]
      exact List.forall_mem_singleton.2 lt
  | .literal _ _, _ => List.forall_mem_nil _
  | .charClass _ _, _ => List.forall_mem_nil _
  | .any _, _ => List.forall_mem_nil _

theorem Token.leadingCalls_lt : ∀ ts : List Token, Token.Every (Matcher.Linked terminals n) ts →
    ∀ i ∈ Token.leadingCalls marks ts, i < n
  | [], _ => List.forall_mem_nil _
  | ⟨matcher, _, _, _, _, _, _⟩ :: rest, ⟨here, later⟩ => by
      rw [Token.leadingCalls]
      refine List.forall_mem_append.2 ⟨Matcher.leadingCalls_lt matcher here, ?_⟩
      split
      · exact Token.leadingCalls_lt rest later
      · exact List.forall_mem_nil _

theorem Pattern.leadingCalls_lt : ∀ ps : List Pattern, Pattern.Every (Matcher.Linked terminals n) ps →
    ∀ i ∈ Pattern.leadingCalls marks ps, i < n
  | [], _ => List.forall_mem_nil _
  | ⟨tokens, _, _⟩ :: rest, ⟨here, later⟩ => by
      rw [Pattern.leadingCalls]
      exact List.forall_mem_append.2 ⟨Token.leadingCalls_lt tokens here, Pattern.leadingCalls_lt rest later⟩

end

end

namespace Grammar

/-- A ruleset may match nothing. -/
def MayBeEmpty (g : Grammar) (ruleset : Nat) : Prop := g.nullable[ruleset]? = some true

/-- Whether a ruleset may match nothing, by the marks. -/
def emptyMark (g : Grammar) (ruleset : Nat) : Bool := g.nullable[ruleset]?.getD false

theorem not_mayBeEmpty_iff {g : Grammar} {ruleset : Nat} :
    ¬ g.MayBeEmpty ruleset ↔ g.emptyMark ruleset = false := by
  unfold MayBeEmpty emptyMark
  cases g.nullable[ruleset]? with
  | none => simp
  | some mark => simp

/-- A ruleset may call another one before it has used up input. -/
def CallsFirst (g : Grammar) (caller called : Nat) : Prop :=
  called ∈ Graph.successors g.leadingCalls caller

theorem callsFirst_iff {g : Grammar} {caller called : Nat} {s : Ruleset}
    (found : g.rulesets[caller]? = some s) :
    g.CallsFirst caller called ↔ ∃ r ∈ s.rules, called ∈ Pattern.leadingCalls g.nullable r.patterns := by
  rw [CallsFirst, Graph.successors, leadingCalls, List.getElem?_map, found, Option.map_some,
    Option.getD_some, List.mem_flatMap]

theorem exists_of_callsFirst {g : Grammar} {caller called : Nat} (calls : g.CallsFirst caller called) :
    ∃ s, g.rulesets[caller]? = some s := by
  cases found : g.rulesets[caller]? with
  | some s => exact ⟨s, rfl⟩
  | none =>
      rw [CallsFirst, Graph.successors, leadingCalls, List.getElem?_map, found] at calls
      exact absurd calls List.not_mem_nil

theorem mem_leftRecursive {g : Grammar} {terminals : List Terminal}
    (every : g.Every (Matcher.Linked terminals g.rulesets.length)) {ruleset : Nat} {s : Ruleset}
    (found : g.rulesets[ruleset]? = some s) (path : TransGen g.CallsFirst ruleset ruleset) :
    s ∈ g.leftRecursive := by
  have bounded : ∀ i, ∀ j ∈ Graph.successors g.leadingCalls i, j < g.leadingCalls.length := by
    intro i j next
    rw [leadingCalls, List.length_map]
    obtain ⟨caller, isCaller⟩ := exists_of_callsFirst next
    obtain ⟨r, member, called⟩ := (callsFirst_iff isCaller).1 next
    exact Pattern.leadingCalls_lt r.patterns (every caller (List.mem_of_getElem? isCaller) r member) j called
  refine List.mem_map.2 ⟨(s, ruleset), List.mem_filter.2 ⟨List.mem_zipIdx_iff_getElem?.2 found, ?_⟩, rfl⟩
  exact Graph.onCycle_of_transGen bounded path

/-- The warnings of a grammar that was accepted are all findings in it. -/
theorem annotate?_warnings {g : Grammar} {callbacks : List String} {a : AnnotatedGrammar}
    (accepted : g.annotate? callbacks = .ok a) : a.warnings = a.grammar.warnings := by
  obtain ⟨entry, -, h⟩ := Except.bind_eq_ok accepted
  obtain ⟨resolved, -, h⟩ := Except.bind_eq_ok h
  obtain ⟨-, -, h⟩ := Except.bind_eq_ok h
  obtain ⟨laidOut, -, h⟩ := Except.bind_eq_ok h
  obtain ⟨⟨interned, table⟩, -, h⟩ := Except.bind_eq_ok h
  obtain ⟨_, -, h⟩ := Except.bind_eq_ok h
  cases h
  rfl

/-- A ruleset that reaches itself by calls at the start is warned of. -/
theorem warned_of_callsFirst {g : Grammar} {callbacks : List String} {a : AnnotatedGrammar}
    (accepted : g.annotate? callbacks = .ok a) {ruleset : Nat}
    (path : TransGen a.grammar.CallsFirst ruleset ruleset) :
    ∃ s, a.grammar.rulesets[ruleset]? = some s ∧ Warning.ofLeftRecursion s ∈ a.warnings := by
  obtain ⟨s, found⟩ : ∃ s, a.grammar.rulesets[ruleset]? = some s := by
    obtain ⟨next, calls, -⟩ := TransGen.head'_iff.1 path
    exact exists_of_callsFirst calls
  refine ⟨s, found, ?_⟩
  rw [annotate?_warnings accepted, warnings]
  exact List.mem_append_right _
    (List.mem_map_of_mem (mem_leftRecursive (annotate?_linked accepted).every found path))

end Grammar

end PegFlow
