/-
# PegFlow.Proofs.Grammar.Numbering -- node ids count the nodes depth first

The nodes of a grammar are its rulesets, rules, patterns and tokens, and a node is found by its
place: the path of positions that leads to it (`Node.at?`). Depth first is the lexicographic order
of places, in which a node comes before the nodes inside it. The ids of an accepted grammar are
the numbers from one to the largest, one for each node, in that order (`Grammar.ids_in_preorder`).

Numbering threads the next free id through the nodes. `Node.Counted` says of a list of nodes what
that leaves behind, whatever the nodes are, and everything about ids is derived from it. No later
stage changes an id (`Grammar.annotate?_ids`), and whether nodes are counted does not depend on the
other annotations (`Node.counted_relabel`).
-/
import Mathlib.Data.List.Lex
import PegFlow.Proofs.Grammar.Annotations

namespace PegFlow

set_option autoImplicit false

/-- A part of a grammar that has an id. -/
inductive Node where
  | ruleset (s : Ruleset)
  | rule (r : Rule)
  | pattern (x : Pattern)
  | token (t : Token)

namespace Node

/-- The id of a node. -/
def id : Node → Nat
  | .ruleset s => s.id
  | .rule r => r.id
  | .pattern x => x.id
  | .token t => t.id

/-- The nodes directly inside a node, in the order in which they are written. -/
def inside : Node → List Node
  | .ruleset s => s.rules.map .rule
  | .rule r => r.patterns.map .pattern
  | .pattern x => x.tokens.map .token
  | .token t => t.matcher.patterns.map .pattern

/-- The node at a place: the position of a node, then that of a node inside it, and so on. -/
def at? (nodes : List Node) : List Nat → Option Node
  | [] => none
  | [i] => nodes[i]?
  | i :: j :: place => nodes[i]?.bind fun node => at? node.inside (j :: place)

/-! ## Places -/

theorem at?_nil_ne {place : List Nat} {node : Node} : at? [] place ≠ some node := by
  match place with
  | [] => simp [at?]
  | [i] => simp [at?]
  | i :: j :: place => simp [at?]

/-- A node is the first one, inside the first one, or further on. -/
theorem at?_cons_iff {first node : Node} {rest : List Node} {place : List Nat} :
    at? (first :: rest) place = some node ↔
      (place = [0] ∧ first = node) ∨
      (∃ inner, place = 0 :: inner ∧ at? first.inside inner = some node) ∨
      ∃ i inner, place = (i + 1) :: inner ∧ at? rest (i :: inner) = some node := by
  match place with
  | [] => simp [at?]
  | [0] => simp [at?]
  | [i + 1] => simp [at?]
  | 0 :: j :: inner => simp [at?]
  | (i + 1) :: j :: inner => simp [at?]

/-! ## Counting -/

/-- From the first number on, without gaps, each node has the next id and the nodes inside it those
after it. The second number is the next one that is free. -/
inductive Counted : Nat → List Node → Nat → Prop
  | nil {n : Nat} : Counted n [] n
  | cons {node : Node} {rest : List Node} {n m k : Nat} (here : node.id = n)
      (within : Counted (n + 1) node.inside m) (later : Counted m rest k) : Counted n (node :: rest) k

namespace Counted

variable {nodes : List Node} {n k : Nat}

theorem le (counted : Counted n nodes k) : n ≤ k := by
  induction counted with
  | nil => exact Nat.le_refl _
  | cons _ _ _ within later => omega

/-- Ids are within the numbers that were counted. -/
theorem bounds (counted : Counted n nodes k) {place : List Nat} {node : Node}
    (there : at? nodes place = some node) : n ≤ node.id ∧ node.id < k := by
  induction counted generalizing place with
  | nil => exact absurd there at?_nil_ne
  | cons here within later ihWithin ihLater =>
      have leWithin := within.le
      have leLater := later.le
      rcases at?_cons_iff.1 there with ⟨-, rfl⟩ | ⟨inner, -, found⟩ | ⟨i, inner, -, found⟩
      · omega
      · have := ihWithin found
        omega
      · have := ihLater found
        omega

/-- Every number that was counted is the id of a node. -/
theorem exists_at (counted : Counted n nodes k) {id : Nat} (low : n ≤ id) (high : id < k) :
    ∃ place node, at? nodes place = some node ∧ node.id = id := by
  induction counted with
  | nil => omega
  | @cons first _ n m _ here within later ihWithin ihLater =>
      obtain rfl | above := Nat.eq_or_lt_of_le low
      · exact ⟨[0], first, rfl, here⟩
      · by_cases inFirst : id < m
        · obtain ⟨inner, node, found, is⟩ := ihWithin above inFirst
          exact ⟨0 :: inner, node, at?_cons_iff.2 (.inr (.inl ⟨inner, rfl, found⟩)), is⟩
        · obtain ⟨place, node, found, is⟩ := ihLater (Nat.le_of_not_lt inFirst) high
          cases place with
          | nil => cases found
          | cons i inner =>
              exact ⟨(i + 1) :: inner, node, at?_cons_iff.2 (.inr (.inr ⟨i, inner, rfl, found⟩)), is⟩

/-- Depth first, what comes later has the larger id. -/
theorem id_lt (counted : Counted n nodes k) {place place' : List Nat} {node node' : Node}
    (there : at? nodes place = some node) (there' : at? nodes place' = some node')
    (before : List.Lex (· < ·) place place') : node.id < node'.id := by
  induction counted generalizing place place' with
  | nil => exact absurd there at?_nil_ne
  | cons here within later ihWithin ihLater =>
      have leWithin := within.le
      rcases at?_cons_iff.1 there' with ⟨rfl, -⟩ | ⟨inner', rfl, found'⟩ | ⟨j, inner', rfl, found'⟩
      · rcases at?_cons_iff.1 there with ⟨rfl, -⟩ | ⟨inner, rfl, -⟩ | ⟨i, inner, rfl, -⟩ <;>
          simp [List.cons_lex_cons_iff] at before
      · have above := within.bounds found'
        rcases at?_cons_iff.1 there with ⟨-, rfl⟩ | ⟨inner, rfl, found⟩ | ⟨i, inner, rfl, -⟩
        · omega
        · exact ihWithin found found' (by simpa [List.cons_lex_cons_iff] using before)
        · simp [List.cons_lex_cons_iff] at before
      · have above := later.bounds found'
        rcases at?_cons_iff.1 there with ⟨-, rfl⟩ | ⟨inner, rfl, found⟩ | ⟨i, inner, rfl, found⟩
        · omega
        · have below := within.bounds found
          omega
        · exact ihLater found found' (by simpa [List.cons_lex_cons_iff] using before)

/-- The nodes inside a counted node are counted from the next id on. -/
theorem inside (counted : Counted n nodes k) {place : List Nat} {node : Node}
    (there : at? nodes place = some node) : ∃ m, Counted (node.id + 1) node.inside m := by
  induction counted generalizing place with
  | nil => exact absurd there at?_nil_ne
  | cons here within later ihWithin ihLater =>
      rcases at?_cons_iff.1 there with ⟨-, rfl⟩ | ⟨inner, -, found⟩ | ⟨i, inner, -, found⟩
      · exact ⟨_, here ▸ within⟩
      · exact ihWithin found
      · exact ihLater found

/-- No two places have the same id. -/
theorem place_eq (counted : Counted n nodes k) {place place' : List Nat} {node node' : Node}
    (there : at? nodes place = some node) (there' : at? nodes place' = some node')
    (same : node.id = node'.id) : place = place' := by
  rcases trichotomous_of (List.Lex (· < ·)) place place' with before | eq | after
  · exact absurd same (counted.id_lt there there' before).ne
  · exact eq
  · exact absurd same (counted.id_lt there' there after).ne'

/-- The order of ids is that of places. -/
theorem before_iff (counted : Counted n nodes k) {place place' : List Nat} {node node' : Node}
    (there : at? nodes place = some node) (there' : at? nodes place' = some node') :
    List.Lex (· < ·) place place' ↔ node.id < node'.id := by
  constructor
  · exact counted.id_lt there there'
  · intro lt
    rcases trichotomous_of (List.Lex (· < ·)) place place' with before | rfl | after
    · exact before
    · cases there.symm.trans there'
      exact absurd lt (Nat.lt_irrefl _)
    · exact absurd lt (counted.id_lt there' there after).not_gt

end Counted

end Node

/-! ## Numbering -/

section

open Node

mutual

theorem Matcher.number_counted (n : Nat) : ∀ x : Matcher,
    Counted n ((x.number n).1.patterns.map .pattern) (x.number n).2
  | .capture patterns _ => Pattern.number_counted n patterns
  | .group patterns => Pattern.number_counted n patterns
  | .ref _ _ => .nil
  | .literal _ _ => .nil
  | .charClass _ _ => .nil
  | .any _ => .nil

theorem Token.number_counted (n : Nat) : ∀ ts : List Token,
    Counted n ((Token.numberList n ts).1.map .token) (Token.numberList n ts).2
  | [] => .nil
  | ⟨matcher, _, _, _, _, _, _⟩ :: rest =>
      .cons rfl (Matcher.number_counted (n + 1) matcher) (Token.number_counted _ rest)

theorem Pattern.number_counted (n : Nat) : ∀ ps : List Pattern,
    Counted n ((Pattern.numberList n ps).1.map .pattern) (Pattern.numberList n ps).2
  | [] => .nil
  | ⟨tokens, _, _⟩ :: rest =>
      .cons rfl (Token.number_counted (n + 1) tokens) (Pattern.number_counted _ rest)

end

theorem Rule.number_counted (n : Nat) (rs : List Rule) :
    Counted n ((Rule.numberList n rs).1.map .rule) (Rule.numberList n rs).2 := by
  induction rs generalizing n with
  | nil => exact .nil
  | cons r rest ih => exact .cons rfl (Pattern.number_counted (n + 1) r.patterns) (ih _)

theorem Ruleset.number_counted (n : Nat) (ss : List Ruleset) :
    Counted n ((Ruleset.numberList n ss).1.map .ruleset) (Ruleset.numberList n ss).2 := by
  induction ss generalizing n with
  | nil => exact .nil
  | cons s rest ih => exact .cons rfl (Rule.number_counted (n + 1) s.rules) (ih _)

/-- The outermost nodes of a grammar. -/
def Grammar.nodes (g : Grammar) : List Node := g.rulesets.map .ruleset

/-- Numbering counts the nodes from one to the largest id. -/
theorem Grammar.number_counted (g : Grammar) : Counted 1 g.number.nodes (g.number.maxId + 1) := by
  have counted := Ruleset.number_counted 1 g.rulesets
  have next : (Ruleset.numberList 1 g.rulesets).2 - 1 + 1 = (Ruleset.numberList 1 g.rulesets).2 :=
    Nat.sub_add_cancel counted.le
  show Counted 1 _ ((Ruleset.numberList 1 g.rulesets).2 - 1 + 1)
  rw [next]
  exact counted

end

/-! ## Other annotations -/

namespace Node

/-- A node with new annotations. -/
def relabel (ν : Labels) : Node → Node
  | .ruleset s => .ruleset (s.relabel ν)
  | .rule r => .rule (r.relabel ν)
  | .pattern x =>
    .pattern { x with
      tokens := Token.relabel ν.toNodeLabels x.tokens, canFail := ν.canFail x.canFail, id := ν.id x.id }
  | .token t => .token { t with matcher := t.matcher.relabel ν.toNodeLabels, id := ν.id t.id }

variable (ν : Labels)

theorem id_relabel (node : Node) : (node.relabel ν).id = ν.id node.id := by
  cases node <;> rfl

theorem map_token_relabel : ∀ ts : List Token,
    (Token.relabel ν.toNodeLabels ts).map Node.token = (ts.map Node.token).map (relabel ν)
  | [] => rfl
  | ⟨_, _, _, _, _, _, _⟩ :: rest => by
      rw [Token.relabel, List.map_cons, map_token_relabel rest]
      rfl

theorem map_pattern_relabel : ∀ ps : List Pattern,
    (Pattern.relabel ν.toNodeLabels ps).map Node.pattern = (ps.map Node.pattern).map (relabel ν)
  | [] => rfl
  | ⟨_, _, _⟩ :: rest => by
      rw [Pattern.relabel, List.map_cons, map_pattern_relabel rest]
      rfl

theorem inside_relabel (node : Node) : (node.relabel ν).inside = node.inside.map (relabel ν) := by
  cases node with
  | ruleset s => simp [relabel, inside, Ruleset.relabel]
  | rule r => exact map_pattern_relabel ν r.patterns
  | pattern x => exact map_token_relabel ν x.tokens
  | token t =>
      have patterns : (t.matcher.relabel ν.toNodeLabels).patterns =
          Pattern.relabel ν.toNodeLabels t.matcher.patterns := by
        cases t.matcher <;> rfl
      show (t.matcher.relabel ν.toNodeLabels).patterns.map Node.pattern = _
      rw [patterns]
      exact map_pattern_relabel ν t.matcher.patterns

/-- The nodes are at the same places. -/
theorem at?_relabel (nodes : List Node) (place : List Nat) :
    at? (nodes.map (relabel ν)) place = (at? nodes place).map (relabel ν) := by
  induction nodes, place using at?.induct with
  | case1 => rfl
  | case2 nodes i => simp [at?]
  | case3 nodes i j place ih =>
      rw [at?, at?, List.getElem?_map]
      cases nodes[i]? with
      | none => rfl
      | some node =>
        show at? (node.relabel ν).inside _ = _
        rw [inside_relabel]
        exact ih node

/-- What is counted does not depend on annotations but ids. -/
theorem counted_relabel (ids : ∀ old, ν.id old = old) {n k : Nat} {nodes : List Node} :
    Counted n (nodes.map (relabel ν)) k ↔ Counted n nodes k := by
  constructor
  · intro counted
    generalize given : nodes.map (relabel ν) = relabelled at counted
    induction counted generalizing nodes with
    | nil =>
        cases List.map_eq_nil_iff.1 given
        exact .nil
    | cons here within later ihWithin ihLater =>
        obtain ⟨node, rest, rfl, rfl, rfl⟩ := List.map_eq_cons_iff.1 given
        rw [id_relabel, ids] at here
        exact .cons here (ihWithin (inside_relabel ν node).symm) (ihLater rfl)
  · intro counted
    induction counted with
    | nil => exact .nil
    | @cons node rest n m k here within later ihWithin ihLater =>
        refine .cons ?_ ?_ ihLater
        · rw [id_relabel, ids]
          exact here
        · rw [inside_relabel]
          exact ihWithin

end Node

/-! ## Accepted grammars -/

namespace Grammar

open Node

/-- The ids of the nodes of a grammar count them depth first. -/
structure InPreorder (g : Grammar) : Prop where
  /-- No two nodes have the same id. -/
  distinct : ∀ {place place' : List Nat} {node node' : Node}, at? g.nodes place = some node →
    at? g.nodes place' = some node' → node.id = node'.id → place = place'
  /-- The ids are the numbers from one to the largest id. -/
  dense : ∀ id : Nat, (∃ place node, at? g.nodes place = some node ∧ node.id = id) ↔ 1 ≤ id ∧ id ≤ g.maxId
  /-- Ids grow depth first, which is the lexicographic order of places. -/
  ordered : ∀ {place place' : List Nat} {node node' : Node}, at? g.nodes place = some node →
    at? g.nodes place' = some node' → (List.Lex (· < ·) place place' ↔ node.id < node'.id)
  /-- The nodes inside a node, however deep, have larger ids than the node. -/
  outer_lt : ∀ {place : List Nat} {node : Node}, at? g.nodes place = some node →
    ∀ {within : List Nat} {inner : Node}, at? node.inside within = some inner → node.id < inner.id

variable {g : Grammar} {callbacks : List String} {a : AnnotatedGrammar}

theorem inPreorder_of_counted (counted : Counted 1 g.nodes (g.maxId + 1)) : g.InPreorder where
  distinct := counted.place_eq
  dense id := by
    constructor
    · rintro ⟨place, node, there, rfl⟩
      obtain ⟨low, high⟩ := counted.bounds there
      exact ⟨low, Nat.le_of_lt_succ high⟩
    · rintro ⟨low, high⟩
      exact counted.exists_at low (Nat.lt_succ_of_le high)
  ordered := counted.before_iff
  outer_lt there _ _ found := by
    obtain ⟨m, within⟩ := counted.inside there
    exact (within.bounds found).1

theorem nodes_relabel (ν : Labels) (g : Grammar) : (g.relabel ν).nodes = g.nodes.map (Node.relabel ν) := by
  simp [nodes, relabel, Node.relabel]

/-- The places of the nodes do not depend on annotations. -/
theorem isSome_at?_of_bare {g g' : Grammar} (same : g.bare = g'.bare) (place : List Nat) :
    (at? g.nodes place).isSome = (at? g'.nodes place).isSome := by
  refine eq_of_bare (F := fun g => (at? g.nodes place).isSome) (fun g => ?_) same
  show (at? (g.relabel .blank).nodes place).isSome = _
  rw [nodes_relabel, at?_relabel, Option.isSome_map]

/-- The labels that keep ids and blank the rest. -/
def idsOnly : Labels := .onIds (fun old => old) fun old => old

theorem annotate?_counted (accepted : g.annotate? callbacks = .ok a) :
    Counted 1 a.grammar.nodes (a.grammar.maxId + 1) := by
  have same : a.grammar.relabel idsOnly = g.number.relabel idsOnly := annotate?_ids accepted _ _
  have maxId : a.grammar.maxId = g.number.maxId := calc
    a.grammar.maxId = (a.grammar.relabel idsOnly).maxId := rfl
    _ = (g.number.relabel idsOnly).maxId := by rw [same]
    _ = g.number.maxId := rfl
  have counted : Counted 1 (a.grammar.relabel idsOnly).nodes (g.number.maxId + 1) := by
    rw [same, nodes_relabel, counted_relabel idsOnly fun _ => rfl]
    exact g.number_counted
  rw [nodes_relabel, counted_relabel idsOnly fun _ => rfl] at counted
  rwa [maxId]

/-- An accepted grammar has all nodes of the given one, and their ids count them depth first: from
one to the largest id without gaps, each before those of the nodes inside it. -/
theorem ids_in_preorder (accepted : g.annotate? callbacks = .ok a) :
    (∀ place, (at? a.grammar.nodes place).isSome = (at? g.nodes place).isSome) ∧ a.grammar.InPreorder :=
  ⟨isSome_at?_of_bare (annotate?_unseen accepted), inPreorder_of_counted (annotate?_counted accepted)⟩

/-- In the grammar of words with commas between them, the reference in the capture in the repeated
group is the twelfth of sixteen nodes. -/
theorem ids_in_preorder_of_words : ∃ a, words.annotate? [] = .ok a ∧ a.grammar.maxId = 16 ∧
    (at? a.grammar.nodes [0, 0, 0, 1, 0, 1, 0, 0]).map Node.id = some 12 ∧
    (∀ place, (at? a.grammar.nodes place).isSome = (at? words.nodes place).isSome) ∧ a.grammar.InPreorder := by
  obtain ⟨a, accepted⟩ : ∃ a, words.annotate? [] = .ok a := Except.eq_ok_of_isSome (by decide +kernel)
  have ids : (words.annotate? []).map (fun a => (a.grammar.maxId,
      (at? a.grammar.nodes [0, 0, 0, 1, 0, 1, 0, 0]).map Node.id)) = .ok (16, some 12) := by
    decide +kernel
  rw [accepted] at ids
  obtain ⟨largest, deepest⟩ := Prod.mk.inj (Except.ok.inj ids)
  exact ⟨a, accepted, largest, deepest, ids_in_preorder accepted⟩

end Grammar

end PegFlow
