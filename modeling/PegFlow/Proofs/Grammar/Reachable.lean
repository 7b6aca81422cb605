/-
# PegFlow.Proofs.Grammar.Reachable -- which rulesets can be reached

The search of a graph finds the nodes that a path leads to and no others
(`Graph.forall_reachable`, `Graph.closed_reachable`). So the check of a grammar whose references
are resolved accepts it exactly when references lead from the name `return` to every other name
(`Grammar.checkReachable_eq_ok_iff`), wherever the rulesets stand.
-/
import PegFlow.Proofs.Grammar.Interned
import PegFlow.Proofs.Grammar.LeftRecursion

namespace PegFlow

set_option autoImplicit false

open Relation

namespace Graph

variable {edges : List (List Nat)} {P : Nat → Prop} (passes : ∀ i, P i → ∀ j ∈ successors edges i, P j)

include passes

theorem forall_closure {rounds : Nat} {seen newest : List Nat} (known : ∀ i ∈ seen, P i)
    (new : ∀ i ∈ newest, P i) : ∀ i ∈ closure edges rounds seen newest, P i := by
  induction rounds generalizing seen newest with
  | zero => exact known
  | succ rounds ih =>
      have next : ∀ j ∈ fresh edges seen newest, P j := by
        intro j member
        obtain ⟨⟨i, from', step⟩, -⟩ := mem_fresh.1 member
        exact passes i (new i from') j step
      rw [closure]
      split
      · exact known
      · rename_i i rest found
        rw [found] at next
        exact ih (List.forall_mem_append.2 ⟨known, next⟩) next

/-- What holds of the starts and passes on to successors holds of all that is reached. -/
theorem forall_reachable {starts : List Nat} (start : ∀ i ∈ starts, P i) :
    ∀ i ∈ reachable edges starts, P i :=
  forall_closure passes (fun i member => start i (List.mem_eraseDups.1 member)) start

end Graph

/-! ## References by name -/

/-- The name of a ruleset that a matcher refers to. -/
def Matcher.reference? : Matcher → Option String
  | .ref name _ => some name
  | _ => none

/-- The names of the rulesets that the patterns refer to anywhere. -/
def Pattern.references (ps : List Pattern) : List String :=
  (Pattern.allTokens ps).filterMap fun t => t.matcher.reference?

theorem Pattern.references_relabel (ν : NodeLabels) (ps : List Pattern) :
    Pattern.references (Pattern.relabel ν ps) = Pattern.references ps :=
  Pattern.filterMap_relabel (fun x => by cases x <;> rfl) ps

/-- Where references have the places of what they name, patterns refer to a name exactly when its
place is among their targets. -/
theorem Pattern.mem_targets_iff {names : List String} (distinct : names.Nodup) {ps : List Pattern}
    (named : Pattern.Every (Matcher.Named names) ps) {i : Nat} {name : String} (here : names[i]? = some name) :
    i ∈ Pattern.targets ps ↔ name ∈ Pattern.references ps := by
  rw [targets, references, List.mem_filterMap, List.mem_filterMap]
  refine exists_congr fun t => and_congr_right fun member => ?_
  have own := (Pattern.every_iff_token ps).1 named t member
  cases matcher : t.matcher with
  | ref name' target =>
      rw [matcher] at own
      obtain ⟨j, rfl, there⟩ := own rfl
      show some j = some i ↔ some name' = some name
      constructor
      · rintro ⟨⟩
        exact there.symm.trans here
      · rintro ⟨⟩
        rw [List.place_unique distinct there here]
  | capture | group | literal | charClass | any => exact ⟨nofun, nofun⟩

theorem Pattern.targets_lt {names : List String} {ps : List Pattern}
    (named : Pattern.Every (Matcher.Named names) ps) {i : Nat} (member : i ∈ Pattern.targets ps) :
    ∃ name, names[i]? = some name := by
  obtain ⟨t, inside, target⟩ := List.mem_filterMap.1 member
  have own := (Pattern.every_iff_token ps).1 named t inside
  cases matcher : t.matcher with
  | ref name' target' =>
      rw [matcher] at own target
      obtain ⟨j, rfl, there⟩ := own rfl
      cases target
      exact ⟨name', there⟩
  | capture | group | literal | charClass | any =>
      rw [matcher] at target
      cases target

namespace Grammar

/-- A rule of the ruleset of the one name refers to the other name. -/
def RefersTo (g : Grammar) (name name' : String) : Prop :=
  ∃ s ∈ g.rulesets, s.name = name ∧ ∃ r ∈ s.rules, name' ∈ Pattern.references r.patterns

theorem refersTo_relabel (ν : Labels) (g : Grammar) : (g.relabel ν).RefersTo = g.RefersTo := by
  funext name name'
  simp [RefersTo, relabel, Ruleset.relabel, Rule.relabel, Pattern.references_relabel]

variable {g : Grammar}

/-- The graph of references has the edges that the references by name are. -/
theorem mem_references_iff (distinct : g.names.Nodup) (named : g.Every (Matcher.Named g.names)) {i j : Nat}
    {name name' : String} (here : g.names[i]? = some name) (there : g.names[j]? = some name') :
    j ∈ Graph.successors g.references i ↔ g.RefersTo name name' := by
  obtain ⟨s, found, rfl⟩ : ∃ s, g.rulesets[i]? = some s ∧ s.name = name := by
    rwa [names, List.getElem?_map, Option.map_eq_some_iff] at here
  have member := List.mem_of_getElem? found
  rw [Graph.successors, references, List.getElem?_map, found, Option.map_some, Option.getD_some,
    List.mem_flatMap]
  constructor
  · rintro ⟨r, hr, target⟩
    exact ⟨s, member, rfl, r, hr, (Pattern.mem_targets_iff distinct (named s member r hr) there).1 target⟩
  · rintro ⟨s', member', same, r, hr, refers⟩
    obtain rfl : s' = s := List.inj_on_of_nodup_map distinct member' member same
    exact ⟨r, hr, (Pattern.mem_targets_iff distinct (named s' member r hr) there).2 refers⟩

theorem references_lt (named : g.Every (Matcher.Named g.names)) {i j : Nat}
    (next : j ∈ Graph.successors g.references i) :
    ∃ name name', g.names[i]? = some name ∧ g.names[j]? = some name' := by
  rw [Graph.successors, references, List.getElem?_map] at next
  cases found : g.rulesets[i]? with
  | none =>
      rw [found] at next
      exact absurd next List.not_mem_nil
  | some s =>
      rw [found, Option.map_some, Option.getD_some, List.mem_flatMap] at next
      obtain ⟨r, hr, target⟩ := next
      obtain ⟨name', there⟩ := Pattern.targets_lt (named s (List.mem_of_getElem? found) r hr) target
      exact ⟨s.name, name', by rw [names, List.getElem?_map, found]; rfl, there⟩

theorem checkReachable_eq_ok {entry : Nat} : g.checkReachable entry = .ok () ↔
    ∀ i < g.rulesets.length, i ∈ Graph.reachable g.references [entry] := by
  rw [checkReachable]
  constructor
  · intro h i lt
    split at h
    · cases h
    · rename_i none
      have seen := List.find?_eq_none.1 none (g.rulesets[i], i)
        (List.mem_zipIdx_iff_getElem?.2 (List.getElem?_eq_getElem lt))
      simpa using seen
  · intro all
    have none :
        g.rulesets.zipIdx.find? (fun s => !(Graph.reachable g.references [entry]).contains s.2) = none := by
      refine List.find?_eq_none.2 fun s member => ?_
      have lt := (List.getElem?_eq_some_iff.1 (List.mem_zipIdx_iff_getElem?.1 member)).1
      simpa using all s.2 lt
    rw [none]

/-- What is refused is the first ruleset that is not reached. -/
theorem checkReachable_eq_error {entry : Nat} {e : GrammarError} : g.checkReachable entry = .error e ↔
    ∃ i s, g.rulesets[i]? = some s ∧ i ∉ Graph.reachable g.references [entry] ∧
      (∀ j < i, j ∈ Graph.reachable g.references [entry]) ∧ e = .unreachableRuleset s.name s.pos := by
  rw [checkReachable]
  constructor
  · intro h
    split at h
    · rename_i s i found
      obtain ⟨unseen, k, lt, here, earlier⟩ := List.find?_eq_some_iff_getElem.1 found
      rw [List.getElem_zipIdx, Nat.zero_add] at here
      cases here
      rw [List.length_zipIdx] at lt
      refine ⟨i, _, List.getElem?_eq_getElem lt, by simpa using unseen, fun j before => ?_, ?_⟩
      · have seen := earlier j before
        rw [List.getElem_zipIdx, Nat.zero_add] at seen
        simpa using seen
      · cases h
        rfl
    · cases h
  · rintro ⟨i, s, here, unseen, earlier, rfl⟩
    obtain ⟨lt, rfl⟩ := List.getElem?_eq_some_iff.1 here
    have found : g.rulesets.zipIdx.find? (fun s => !(Graph.reachable g.references [entry]).contains s.2) =
        some (g.rulesets[i], i) := by
      refine List.find?_eq_some_iff_getElem.2 ⟨by simpa using unseen, i, by rwa [List.length_zipIdx], ?_, ?_⟩
      · rw [List.getElem_zipIdx, Nat.zero_add]
      · intro j before
        rw [List.getElem_zipIdx, Nat.zero_add]
        simpa using earlier j before
    rw [found]

section

variable (distinct : g.names.Nodup) (named : g.Every (Matcher.Named g.names))

include named

/-- The graph of references stays within the rulesets. -/
theorem references_bounded : ∀ i, ∀ j ∈ Graph.successors g.references i, j < g.references.length := by
  intro i j next
  obtain ⟨-, name', -, there⟩ := references_lt named next
  have lt := (List.getElem?_eq_some_iff.1 there).1
  rwa [references, List.length_map, ← List.length_map (f := Ruleset.name)]

include distinct

/-- A ruleset is reached exactly when references lead to its name from that of the entry. -/
theorem mem_reachable_iff {entry i : Nat} {start name : String} (isEntry : g.names[entry]? = some start)
    (here : g.names[i]? = some name) :
    i ∈ Graph.reachable g.references [entry] ↔ ReflTransGen g.RefersTo start name := by
  constructor
  · intro reached
    have passes : ∀ i, (∃ name, g.names[i]? = some name ∧ ReflTransGen g.RefersTo start name) →
        ∀ j ∈ Graph.successors g.references i,
          ∃ name, g.names[j]? = some name ∧ ReflTransGen g.RefersTo start name := by
      rintro i ⟨name, here, path⟩ j next
      obtain ⟨-, name', -, there⟩ := references_lt named next
      exact ⟨name', there, path.tail ((mem_references_iff distinct named here there).1 next)⟩
    obtain ⟨name', here', path⟩ :=
      Graph.forall_reachable passes (List.forall_mem_singleton.2 ⟨start, isEntry, .refl⟩) i reached
    cases here.symm.trans here'
    exact path
  · intro path
    have entryInside : entry < g.references.length := by
      rw [references, List.length_map, ← List.length_map (f := Ruleset.name)]
      exact (List.getElem?_eq_some_iff.1 isEntry).1
    obtain ⟨starts, closed⟩ :=
      Graph.closed_reachable (references_bounded named) (List.forall_mem_singleton.2 entryInside)
    induction path generalizing i with
    | refl =>
        rw [List.place_unique distinct here isEntry]
        exact starts entry List.mem_cons_self
    | @tail middle last _ refers ih =>
        obtain ⟨s, member, rfl, -⟩ := id refers
        obtain ⟨j, found⟩ := List.mem_iff_getElem?.1 member
        have before : g.names[j]? = some s.name := by rw [names, List.getElem?_map, found]; rfl
        exact closed j (ih before) i ((mem_references_iff distinct named before here).2 refers)

/-- Every ruleset can be reached exactly when references lead to its name from that of the
entry. -/
theorem checkReachable_eq_ok_iff {entry : Nat} {start : String} (isEntry : g.names[entry]? = some start) :
    g.checkReachable entry = .ok () ↔ ∀ name ∈ g.names, ReflTransGen g.RefersTo start name := by
  have length : g.names.length = g.rulesets.length := List.length_map ..
  rw [checkReachable_eq_ok]
  constructor
  · intro all name member
    obtain ⟨i, here⟩ := List.mem_iff_getElem?.1 member
    have lt := (List.getElem?_eq_some_iff.1 here).1
    exact (mem_reachable_iff distinct named isEntry here).1 (all i (length ▸ lt))
  · intro paths i lt
    have here : g.names[i]? = some g.rulesets[i].name := by
      rw [names, List.getElem?_map, List.getElem?_eq_getElem lt]
      rfl
    exact (mem_reachable_iff distinct named isEntry here).2 (paths _ (List.mem_of_getElem? here))

end

end Grammar

end PegFlow
