/-
# PegFlow.Proofs.Grammar.Search -- the search for rulesets that cannot be reached

A search takes the first node of a queue, visits it and puts those of its successors that were not
seen yet at the end of the queue (`Graph.Searches`). The nodes that are found reachable are those
that this search visits, in its order: it ends with an empty queue and visits no node twice
(`Graph.searches_reachable`, `Graph.nodup_reachable`), however the edges run in circles.

The edges between rulesets are the references that stand anywhere in their rules
(`Matcher.Mentions`, `Grammar.refersTo_eq`). So a grammar with resolved references is accepted
exactly when references lead from `return` to every ruleset, and else the first ruleset that they
do not lead to is reported (`Grammar.checkReachable_decides`).
-/
import PegFlow.Grammar.Build
import PegFlow.Proofs.Grammar.Annotations
import PegFlow.Proofs.Grammar.Reachable

namespace PegFlow

set_option autoImplicit false

open Relation

/-! ## Nodes one after the other -/

theorem List.nodup_eraseDups : ∀ xs : List Nat, xs.eraseDups.Nodup
  | [] => List.nodup_nil
  | x :: rest => by
      rw [List.eraseDups_cons]
      refine List.nodup_cons.2 ⟨fun member => ?_, List.nodup_eraseDups _⟩
      have differs := (List.mem_filter.1 (List.mem_eraseDups.1 member)).2
      simp at differs
termination_by xs => xs.length
decreasing_by exact Nat.lt_succ_of_le (List.length_filter_le _ _)

namespace Graph

/-- A search that has `seen` some nodes, those in the queue being still to be visited, visits
`visits` and in the end has `found` all these. -/
inductive Searches (edges : List (List Nat)) :
    (seen queue visits found : List Nat) → Prop
  | done (seen : List Nat) : Searches edges seen [] [] seen
  | visit {seen queue visits found : List Nat} (i : Nat)
      (later : Searches edges (seen ++ fresh edges seen [i]) (queue ++ fresh edges seen [i]) visits found) :
      Searches edges seen (i :: queue) (i :: visits) found

variable {edges : List (List Nat)}

theorem nodup_fresh (seen newest : List Nat) : (fresh edges seen newest).Nodup := List.nodup_eraseDups _

theorem fresh_nil (seen : List Nat) : fresh edges seen [] = [] := rfl

/-- The successors of the first node are fresh before those of the others. -/
theorem fresh_cons (seen : List Nat) (i : Nat) (rest : List Nat) :
    fresh edges seen (i :: rest) =
      fresh edges seen [i] ++ fresh edges (seen ++ fresh edges seen [i]) rest := by
  have first : fresh edges seen [i] =
      ((successors edges i).filter fun j => !seen.contains j).eraseDups := by
    rw [fresh, List.flatMap_singleton]
  rw [fresh, List.flatMap_cons, List.filter_append, List.eraseDups_append, ← first]
  congr 1
  rw [fresh, List.removeAll, List.filter_filter]
  congr 1
  refine List.filter_congr fun j _ => ?_
  rw [first, Bool.eq_iff_iff]
  simp [List.mem_eraseDups, and_comm]

/-- The nodes of a level are visited one after the other, in front of what is queued behind
them. -/
theorem Searches.level {newest seen later visits found : List Nat}
    (rest : Searches edges (seen ++ fresh edges seen newest) (later ++ fresh edges seen newest) visits found) :
    Searches edges seen (newest ++ later) (newest ++ visits) found := by
  induction newest generalizing seen later with
  | nil => simpa only [fresh_nil, List.append_nil, List.nil_append] using rest
  | cons i newest ih =>
      rw [fresh_cons, ← List.append_assoc, ← List.append_assoc] at rest
      have visited := ih rest
      rw [← List.append_assoc] at visited
      exact .visit i visited

theorem nodup_closure {rounds : Nat} {seen newest : List Nat} (distinct : seen.Nodup) :
    (closure edges rounds seen newest).Nodup := by
  induction rounds generalizing seen newest with
  | zero => exact distinct
  | succ rounds ih =>
      rw [closure]
      split
      · exact distinct
      · rename_i i rest found
        rw [← found]
        refine ih (List.nodup_append.2 ⟨distinct, nodup_fresh seen newest, ?_⟩)
        rintro a old b new rfl
        exact (mem_fresh.1 new).2 old

/-- No node is reached twice. -/
theorem nodup_reachable (starts : List Nat) : (reachable edges starts).Nodup :=
  nodup_closure (List.nodup_eraseDups starts)

section

variable (bounded : ∀ i, ∀ j ∈ successors edges i, j < edges.length)

include bounded

/-- By induction on the rounds, each of which visits the newest nodes; there are enough of them
for the queue to become empty. -/
theorem searches_closure {rounds : Nat} {seen newest : List Nat} (explored : Explored edges seen newest)
    (enough : edges.length < rounds + seen.toFinset.card) :
    ∃ later, closure edges rounds seen newest = seen ++ later ∧
      Searches edges seen newest (newest ++ later) (seen ++ later) := by
  induction rounds generalizing seen newest with
  | zero =>
      have few := explored.card_le
      omega
  | succ rounds ih =>
      have next := explored.next bounded
      rw [closure]
      split
      · rename_i none
        refine ⟨[], (List.append_nil seen).symm, ?_⟩
        have ended : Searches edges (seen ++ fresh edges seen newest) ([] ++ fresh edges seen newest) [] seen := by
          rw [none, List.append_nil, List.append_nil]
          exact .done seen
        simpa only [List.append_nil] using ended.level
      · rename_i i rest found
        rw [← found]
        have more := card_lt_of_mem_fresh (found ▸ List.mem_cons_self)
        obtain ⟨later, same, searched⟩ := ih next (by omega)
        refine ⟨fresh edges seen newest ++ later, ?_, ?_⟩
        · rw [same, List.append_assoc]
        · rw [List.append_assoc, ← List.nil_append (fresh edges seen newest)] at searched
          simpa only [List.append_nil, List.nil_append] using searched.level

/-- The reachable nodes are those that a search from the start visits, in the order of its
visits. -/
theorem searches_reachable {start : Nat} (inside : start < edges.length) :
    Searches edges [start] [start] (reachable edges [start]) (reachable edges [start]) := by
  have explored : Explored edges [start] [start] :=
    ⟨fun i member => Or.inl member, List.forall_mem_singleton.2 inside⟩
  obtain ⟨later, same, searched⟩ := searches_closure bounded explored
    (show edges.length < edges.length + _ by simp)
  have reached : reachable edges [start] = [start] ++ later := same
  rwa [reached]

end

end Graph

/-! ## References anywhere in a rule -/

/-- A reference to the name stands in the matcher, at whatever depth and whatever the modifiers
of the tokens around it. -/
inductive Matcher.Mentions (name : String) : Matcher → Prop
  | ref (target : Option Nat) : Mentions name (.ref name target)
  | capture {patterns : List Pattern} (slot : Nat) {p : Pattern} {t : Token} (inside : p ∈ patterns)
      (token : t ∈ p.tokens) (mentions : Mentions name t.matcher) : Mentions name (.capture patterns slot)
  | group {patterns : List Pattern} {p : Pattern} {t : Token} (inside : p ∈ patterns)
      (token : t ∈ p.tokens) (mentions : Mentions name t.matcher) : Mentions name (.group patterns)

section

variable {name : String}

mutual

theorem Matcher.mentions_iff : ∀ x : Matcher, x.Mentions name ↔
    x.reference? = some name ∨ ∃ t ∈ Pattern.allTokensIn x, t.matcher.reference? = some name
  | .capture patterns slot => by
      have inner := Pattern.mentions_iff patterns
      constructor
      · rintro (_ | ⟨-, inside, token, mentions⟩)
        exact Or.inr (inner.1 ⟨_, inside, _, token, mentions⟩)
      · rintro (⟨⟨⟩⟩ | mentioned)
        obtain ⟨p, inside, t, token, mentions⟩ := inner.2 mentioned
        exact .capture slot inside token mentions
  | .group patterns => by
      have inner := Pattern.mentions_iff patterns
      constructor
      · rintro (_ | _ | ⟨inside, token, mentions⟩)
        exact Or.inr (inner.1 ⟨_, inside, _, token, mentions⟩)
      · rintro (⟨⟨⟩⟩ | mentioned)
        obtain ⟨p, inside, t, token, mentions⟩ := inner.2 mentioned
        exact .group inside token mentions
  | .ref name' target => by
      constructor
      · rintro ⟨⟩
        exact Or.inl rfl
      · rintro (⟨⟨⟩⟩ | ⟨t, inside, -⟩)
        · exact .ref target
        · cases inside
  | .literal _ _ => ⟨nofun, by rintro (⟨⟨⟩⟩ | ⟨t, inside, -⟩); cases inside⟩
  | .charClass _ _ => ⟨nofun, by rintro (⟨⟨⟩⟩ | ⟨t, inside, -⟩); cases inside⟩
  | .any _ => ⟨nofun, by rintro (⟨⟨⟩⟩ | ⟨t, inside, -⟩); cases inside⟩

theorem Token.mentions_iff : ∀ ts : List Token, (∃ t ∈ ts, t.matcher.Mentions name) ↔
    ∃ t ∈ Pattern.allTokensOf ts, t.matcher.reference? = some name
  | [] => by simp [Pattern.allTokensOf]
  | ⟨matcher, required, repeated, ahead, notAhead, id, pos⟩ :: rest => by
      rw [Pattern.allTokensOf, List.exists_mem_cons_iff, List.exists_mem_cons_iff, matcher.mentions_iff,
        Token.mentions_iff rest]
      simp only [List.mem_append, or_and_right, exists_or, or_assoc]

theorem Pattern.mentions_iff : ∀ ps : List Pattern,
    (∃ p ∈ ps, ∃ t ∈ p.tokens, t.matcher.Mentions name) ↔
      ∃ t ∈ Pattern.allTokens ps, t.matcher.reference? = some name
  | [] => by simp [Pattern.allTokens]
  | ⟨tokens, canFail, id⟩ :: rest => by
      rw [Pattern.allTokens, List.exists_mem_cons_iff, Pattern.mentions_iff rest, Token.mentions_iff tokens]
      simp only [List.mem_append, or_and_right, exists_or]

end

end

namespace Grammar

/-- A reference to the other name stands somewhere in a rule of the ruleset of the one name. -/
def Mentions (g : Grammar) (name name' : String) : Prop :=
  ∃ s ∈ g.rulesets, s.name = name ∧ ∃ r ∈ s.rules, ∃ p ∈ r.patterns, ∃ t ∈ p.tokens, t.matcher.Mentions name'

theorem refersTo_eq (g : Grammar) : g.RefersTo = g.Mentions := by
  funext name name'
  simp only [RefersTo, Mentions, Pattern.references, List.mem_filterMap, Pattern.mentions_iff]

/-- References lead from `return` to the name. -/
def CanReach (g : Grammar) (name : String) : Prop := ReflTransGen g.Mentions entryName name

theorem canReach_of_bare {g g' : Grammar} (same : g.bare = g'.bare) : g.CanReach = g'.CanReach := by
  have refers : g.RefersTo = g'.RefersTo := eq_of_bare (refersTo_relabel .blank) same
  unfold CanReach
  rw [← refersTo_eq, ← refersTo_eq, refers]

/-- Where annotations differ only, rulesets of one name and position have the same place. -/
theorem ruleset_of_bare {g g' : Grammar} (same : g.bare = g'.bare) {i : Nat} {s : Ruleset}
    (here : g.rulesets[i]? = some s) : ∃ s', g'.rulesets[i]? = some s' ∧ s'.name = s.name ∧ s'.pos = s.pos := by
  have blanked : (g'.rulesets.map (Ruleset.relabel .blank))[i]? = some (s.relabel .blank) := by
    show g'.bare.rulesets[i]? = _
    rw [← same, bare, relabel, List.getElem?_map, here, Option.map_some]
  rw [List.getElem?_map, Option.map_eq_some_iff] at blanked
  obtain ⟨s', there, equal⟩ := blanked
  have name : (s'.relabel .blank).name = (s.relabel .blank).name := by rw [equal]
  have pos : (s'.relabel .blank).pos = (s.relabel .blank).pos := by rw [equal]
  exact ⟨s', there, name, pos⟩

/-- The ruleset at this place is the first one that references from `return` do not lead to. -/
structure FirstUnreached (g : Grammar) (i : Nat) (s : Ruleset) : Prop where
  here : g.rulesets[i]? = some s
  unreached : ¬ g.CanReach s.name
  earlier : ∀ j < i, ∀ s', g.rulesets[j]? = some s' → g.CanReach s'.name

variable {g resolved : Grammar} {entry : Nat}

theorem mem_reachable_of_resolve? (isEntry : g.entry? = .ok entry) (isResolved : g.indexed.resolve? = .ok resolved)
    {i : Nat} {s : Ruleset} (here : g.rulesets[i]? = some s) :
    i ∈ Graph.reachable resolved.references [entry] ↔ g.CanReach s.name := by
  obtain ⟨distinct, entryName⟩ := entry?_eq_ok_iff.1 isEntry
  have same := resolve?_bare isResolved
  have names := names_of_bare same
  have named := (resolve?_named isResolved).2
  rw [← names] at distinct entryName named
  have place : resolved.names[i]? = some s.name := by
    rw [names, Grammar.names, List.getElem?_map, here, Option.map_some]
  rw [mem_reachable_iff distinct named entryName place, refersTo_eq, ← canReach_of_bare same]
  rfl

/-- The check of a grammar with resolved references is a search that starts at `return`, visits
each ruleset at most once and ends. It visits the rulesets that references lead to, those inside
captures, groups, predicates and optional tokens included. The check accepts when these are all
rulesets, and otherwise reports the first one of the others. -/
theorem checkReachable_decides (isEntry : g.entry? = .ok entry) (isResolved : g.indexed.resolve? = .ok resolved) :
    (∃ visits, Graph.Searches resolved.references [entry] [entry] visits visits ∧ visits.Nodup ∧
      visits = Graph.reachable resolved.references [entry] ∧
      ∀ i s, g.rulesets[i]? = some s → (i ∈ visits ↔ g.CanReach s.name)) ∧
    (resolved.checkReachable entry = .ok () ↔ ∀ s ∈ g.rulesets, g.CanReach s.name) ∧
    ∀ e, resolved.checkReachable entry = .error e ↔
      ∃ i s, g.FirstUnreached i s ∧ e = .unreachableRuleset s.name s.pos := by
  have same := resolve?_bare isResolved
  have reached : ∀ {i : Nat} {s : Ruleset}, g.rulesets[i]? = some s →
      (i ∈ Graph.reachable resolved.references [entry] ↔ g.CanReach s.name) :=
    mem_reachable_of_resolve? isEntry isResolved
  obtain ⟨length, named⟩ := resolve?_named isResolved
  rw [← names_of_bare same] at named
  refine ⟨⟨_, Graph.searches_reachable (references_bounded named) ?_, Graph.nodup_reachable _, rfl,
    fun i s here => reached here⟩, ?_, fun e => ?_⟩
  · rw [references, List.length_map, length]
    exact entry?_lt isEntry
  · rw [checkReachable_eq_ok, length]
    constructor
    · intro all s member
      obtain ⟨i, here⟩ := List.mem_iff_getElem?.1 member
      exact (reached here).1 (all i (List.getElem?_eq_some_iff.1 here).1)
    · intro all i lt
      exact (reached (List.getElem?_eq_getElem lt)).2 (all _ (List.getElem_mem lt))
  · rw [checkReachable_eq_error]
    constructor
    · rintro ⟨i, s, here, unseen, earlier, rfl⟩
      obtain ⟨s', here', name, pos⟩ := ruleset_of_bare same here
      refine ⟨i, s', ⟨here', mt (reached here').2 unseen, fun j before s'' there => ?_⟩, by rw [name, pos]⟩
      exact (reached there).1 (earlier j before)
    · rintro ⟨i, s, first, rfl⟩
      obtain ⟨s', here', name, pos⟩ := ruleset_of_bare same.symm first.here
      refine ⟨i, s', here', mt (reached first.here).1 first.unreached, fun j before => ?_, by rw [name, pos]⟩
      have lt := Nat.lt_trans before (List.getElem?_eq_some_iff.1 first.here).1
      have there := List.getElem?_eq_getElem lt
      exact (reached there).2 (first.earlier j before _ there)

/-- A word behind a bracket, with a look ahead deep inside, and two rulesets that refer only to each
other. -/
def islands : Grammar :=
  let ahead := (Token.group [.ofTokens [(Token.ref "word").lookahead]]).opt
  (((Grammar.empty.addRuleset "return"
      [.ofPatterns [.ofTokens [.capture [.ofTokens [.literal "(", ahead]]]] none]).addRuleset
    "far" [.ofPatterns [.ofTokens [.captureRef "isle"]] none]).addRuleset
    "word" [.ofPatterns [.ofTokens [.charClass "a-z", (Token.ref "return").star]] none]).addRuleset
    "isle" [.ofPatterns [.ofTokens [.ref "far"]] none]

/-- The search goes through the look ahead and back in a circle; of the two other rulesets the
first one is reported. -/
theorem checkReachable_decides_for_islands : ∃ resolved, islands.entry? = .ok 0 ∧
    islands.indexed.resolve? = .ok resolved ∧
    Graph.Searches resolved.references [0] [0] [0, 2] [0, 2] ∧ islands.CanReach "word" ∧
    resolved.checkReachable 0 = .error (.unreachableRuleset "far" none) ∧ ¬ islands.CanReach "far" := by
  have isEntry : islands.entry? = .ok 0 := by decide +kernel
  obtain ⟨resolved, isResolved⟩ : ∃ resolved, islands.indexed.resolve? = .ok resolved :=
    Except.eq_ok_of_isSome (by decide +kernel)
  have run : islands.indexed.resolve?.map (fun g => (Graph.reachable g.references [0], g.checkReachable 0)) =
      .ok ([0, 2], .error (.unreachableRuleset "far" none)) := by decide +kernel
  rw [isResolved] at run
  obtain ⟨visited, refused⟩ := Prod.mk.inj (Except.ok.inj run)
  obtain ⟨⟨_, searched, -, rfl, reached⟩, -, reported⟩ := checkReachable_decides isEntry isResolved
  rw [visited] at searched reached
  obtain ⟨i, s, first, same⟩ := (reported _).1 refused
  have name : "far" = s.name := (GrammarError.unreachableRuleset.inj same).1
  exact ⟨resolved, isEntry, isResolved, searched, (reached 2 _ rfl).1 (by decide), refused,
    name ▸ first.unreached⟩

end Grammar

end PegFlow
