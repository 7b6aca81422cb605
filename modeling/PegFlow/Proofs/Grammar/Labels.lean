/-
# PegFlow.Proofs.Grammar.Labels -- other annotations in the place of the old ones

`Grammar.relabel` puts another annotation in the place of each, by `Labels`, and leaves the
rest of a grammar as it is. No stage of the annotation looks at the annotations that it makes,
nor at those of later stages: relabelling before it is the same as relabelling after it but for
the annotations that it makes. This is shown of each stage, one construct after the other, up to
`Grammar.number_relabel`, `indexed_relabel`, `resolve?_relabel`, `layOut?_relabel`,
`intern?_relabel` and `markFailing_relabel`.
-/
import PegFlow.Grammar.Annotated

namespace PegFlow

set_option autoImplicit false
set_option linter.unusedSectionVars false

/-- A label for each annotation inside a rule, given the old one and what it stands at. -/
structure NodeLabels where
  id : Nat → Nat := fun old => old
  target : String → Option Nat → Option Nat := fun _ old => old
  slot : Nat → Nat := fun old => old
  literal : String → Option Nat → Option Nat := fun _ old => old
  charClass : ClassSpec → Option Nat → Option Nat := fun _ old => old
  any : Option Nat → Option Nat := fun old => old
  canFail : Bool → Bool := fun old => old

/-- A label for each annotation of a grammar. -/
structure Labels extends NodeLabels where
  captures : List Bool → List Bool := fun old => old
  lookup : Keyed Nat → Keyed Nat := fun old => old
  maxId : Nat → Nat := fun old => old

mutual

/-- A matcher with new annotations. -/
def Matcher.relabel (ν : NodeLabels) : Matcher → Matcher
  | .capture patterns slot => .capture (Pattern.relabel ν patterns) (ν.slot slot)
  | .group patterns => .group (Pattern.relabel ν patterns)
  | .ref name target => .ref name (ν.target name target)
  | .literal text terminal => .literal text (ν.literal text terminal)
  | .charClass spec terminal => .charClass spec (ν.charClass spec terminal)
  | .any terminal => .any (ν.any terminal)
termination_by structural x => x

/-- Tokens with new annotations. -/
def Token.relabel (ν : NodeLabels) : List Token → List Token
  | [] => []
  | ⟨matcher, required, repeated, ahead, notAhead, id, pos⟩ :: rest =>
    ⟨matcher.relabel ν, required, repeated, ahead, notAhead, ν.id id, pos⟩ :: Token.relabel ν rest
termination_by structural x => x

/-- Patterns with new annotations. -/
def Pattern.relabel (ν : NodeLabels) : List Pattern → List Pattern
  | [] => []
  | ⟨tokens, canFail, id⟩ :: rest =>
    ⟨Token.relabel ν tokens, ν.canFail canFail, ν.id id⟩ :: Pattern.relabel ν rest
termination_by structural x => x

end

/-- A rule with new annotations. -/
def Rule.relabel (ν : Labels) (r : Rule) : Rule :=
  { r with
    patterns := Pattern.relabel ν.toNodeLabels r.patterns
    captures := ν.captures r.captures
    id := ν.id r.id }

/-- A ruleset with new annotations. -/
def Ruleset.relabel (ν : Labels) (s : Ruleset) : Ruleset :=
  { s with rules := s.rules.map (Rule.relabel ν), id := ν.id s.id }

/-- A grammar with new annotations. -/
def Grammar.relabel (ν : Labels) (g : Grammar) : Grammar :=
  { g with
    rulesets := g.rulesets.map (Ruleset.relabel ν)
    lookup := ν.lookup g.lookup
    maxId := ν.maxId g.maxId }

/-- The labels that leave every annotation in a rule as it is. -/
def NodeLabels.keep : NodeLabels := {}

/-- The labels that leave every annotation as it is. -/
def Labels.keep : Labels := {}

mutual

theorem Matcher.relabel_keep : ∀ x : Matcher, x.relabel .keep = x
  | .capture patterns _ => by rw [Matcher.relabel, Pattern.relabel_keep patterns]; rfl
  | .group patterns => by rw [Matcher.relabel, Pattern.relabel_keep patterns]
  | .ref _ _ => rfl
  | .literal _ _ => rfl
  | .charClass _ _ => rfl
  | .any _ => rfl

theorem Token.relabel_keep : ∀ ts : List Token, Token.relabel .keep ts = ts
  | [] => rfl
  | ⟨matcher, _, _, _, _, _, _⟩ :: rest => by
      rw [Token.relabel, matcher.relabel_keep, Token.relabel_keep rest]; rfl

theorem Pattern.relabel_keep : ∀ ps : List Pattern, Pattern.relabel .keep ps = ps
  | [] => rfl
  | ⟨tokens, _, _⟩ :: rest => by
      rw [Pattern.relabel, Token.relabel_keep tokens, Pattern.relabel_keep rest]; rfl

end

theorem Rule.relabel_keep (r : Rule) : r.relabel .keep = r := by
  show { r with patterns := Pattern.relabel .keep r.patterns } = r
  rw [Pattern.relabel_keep]

theorem Ruleset.relabel_keep (s : Ruleset) : s.relabel .keep = s := by
  have rules : s.rules.map (Rule.relabel .keep) = s.rules :=
    (List.map_congr_left fun r _ => r.relabel_keep).trans (List.map_id s.rules)
  rw [Ruleset.relabel, rules]
  rfl

theorem Grammar.relabel_keep (g : Grammar) : g.relabel .keep = g := by
  have rulesets : g.rulesets.map (Ruleset.relabel .keep) = g.rulesets :=
    (List.map_congr_left fun s _ => s.relabel_keep).trans (List.map_id g.rulesets)
  rw [Grammar.relabel, rulesets]
  rfl

/-! ## Node ids -/

/-- The labels but for node ids, which are left as they are. -/
def NodeLabels.keepIds (ν : NodeLabels) : NodeLabels := { ν with id := keep.id }

/-- The labels but for node ids, which are left as they are. -/
def Labels.keepIds (ν : Labels) : Labels := { ν with id := keep.id, maxId := keep.maxId }

section

variable (ν : NodeLabels)

mutual

theorem Matcher.number_relabel (n : Nat) : ∀ x : Matcher,
    (x.relabel ν).number n = ((x.number n).1.relabel ν.keepIds, (x.number n).2)
  | .capture patterns slot => by
      simp only [Matcher.relabel, Matcher.number, Pattern.number_relabel n patterns]
      rfl
  | .group patterns => by
      simp only [Matcher.relabel, Matcher.number, Pattern.number_relabel n patterns]
  | .ref _ _ => rfl
  | .literal _ _ => rfl
  | .charClass _ _ => rfl
  | .any _ => rfl

theorem Token.number_relabel (n : Nat) : ∀ ts : List Token,
    Token.numberList n (Token.relabel ν ts) =
      (Token.relabel ν.keepIds (Token.numberList n ts).1, (Token.numberList n ts).2)
  | [] => rfl
  | ⟨matcher, _, _, _, _, _, _⟩ :: rest => by
      simp only [Token.relabel, Token.numberList, matcher.number_relabel, Token.number_relabel _ rest]
      rfl

theorem Pattern.number_relabel (n : Nat) : ∀ ps : List Pattern,
    Pattern.numberList n (Pattern.relabel ν ps) =
      (Pattern.relabel ν.keepIds (Pattern.numberList n ps).1, (Pattern.numberList n ps).2)
  | [] => rfl
  | ⟨tokens, _, _⟩ :: rest => by
      simp only [Pattern.relabel, Pattern.numberList, Token.number_relabel _ tokens,
        Pattern.number_relabel _ rest]
      rfl

end

end

section

variable (ν : Labels)

theorem Rule.number_relabel (n : Nat) (rs : List Rule) :
    Rule.numberList n (rs.map (Rule.relabel ν)) =
      ((Rule.numberList n rs).1.map (Rule.relabel ν.keepIds), (Rule.numberList n rs).2) := by
  induction rs generalizing n with
  | nil => rfl
  | cons r rest ih =>
      simp only [List.map_cons, Rule.numberList, Rule.relabel, Pattern.number_relabel, ih]
      rfl

theorem Ruleset.number_relabel (n : Nat) (ss : List Ruleset) :
    Ruleset.numberList n (ss.map (Ruleset.relabel ν)) =
      ((Ruleset.numberList n ss).1.map (Ruleset.relabel ν.keepIds), (Ruleset.numberList n ss).2) := by
  induction ss generalizing n with
  | nil => rfl
  | cons s rest ih =>
      simp only [List.map_cons, Ruleset.numberList, Ruleset.relabel, Rule.number_relabel, ih]
      rfl

theorem Grammar.number_relabel (g : Grammar) : (g.relabel ν).number = g.number.relabel ν.keepIds := by
  simp only [Grammar.number, Grammar.relabel, Ruleset.number_relabel]
  rfl

end

/-! ## References -/

/-- The labels but for the index, which is left as it is. -/
def Labels.keepLookup (ν : Labels) : Labels := { ν with lookup := keep.lookup }

/-- The labels but for targets, which are left as they are. -/
def Labels.keepTargets (ν : Labels) : Labels := { ν with target := keep.target }

/-- Matchers, tokens and patterns hold what they held but for annotations at references and
terminals: these labels are those, whatever labels the latter get. -/
structure NodeLabels.Around (ν ν' : NodeLabels) : Prop where
  id : ν'.id = ν.id
  slot : ν'.slot = ν.slot
  canFail : ν'.canFail = ν.canFail

section

variable {m : Type → Type} [Monad m] [LawfulMonad m] {ν ν' : NodeLabels} (around : ν.Around ν')
  {f f' : Option SourcePosition → Matcher → m Matcher}
  (leaf : ∀ pos (x : Matcher), x.isChoice = false → f' pos (x.relabel ν) = Matcher.relabel ν' <$> f pos x)

include around leaf

mutual

theorem Matcher.mapLeavesM_relabel (pos : Option SourcePosition) : ∀ x : Matcher,
    (x.relabel ν).mapLeavesM f' pos = Matcher.relabel ν' <$> x.mapLeavesM f pos
  | .capture patterns slot => by
      simp only [Matcher.relabel, Matcher.mapLeavesM, Pattern.mapLeavesM_relabel patterns, around.slot,
        map_eq_pure_bind, bind_assoc, pure_bind]
  | .group patterns => by
      simp only [Matcher.relabel, Matcher.mapLeavesM, Pattern.mapLeavesM_relabel patterns,
        map_eq_pure_bind, bind_assoc, pure_bind]
  | .ref name target => leaf pos (.ref name target) rfl
  | .literal text terminal => leaf pos (.literal text terminal) rfl
  | .charClass spec terminal => leaf pos (.charClass spec terminal) rfl
  | .any terminal => leaf pos (.any terminal) rfl

theorem Token.mapLeavesM_relabel : ∀ ts : List Token,
    Token.mapLeavesM f' (Token.relabel ν ts) = Token.relabel ν' <$> Token.mapLeavesM f ts
  | [] => by simp only [Token.relabel, Token.mapLeavesM, map_pure]
  | ⟨matcher, _, _, _, _, _, pos⟩ :: rest => by
      simp only [Token.relabel, Token.mapLeavesM, Matcher.mapLeavesM_relabel pos matcher,
        Token.mapLeavesM_relabel rest, around.id, map_eq_pure_bind, bind_assoc, pure_bind]

theorem Pattern.mapLeavesM_relabel : ∀ ps : List Pattern,
    Pattern.mapLeavesM f' (Pattern.relabel ν ps) = Pattern.relabel ν' <$> Pattern.mapLeavesM f ps
  | [] => by simp only [Pattern.relabel, Pattern.mapLeavesM, map_pure]
  | ⟨tokens, _, _⟩ :: rest => by
      simp only [Pattern.relabel, Pattern.mapLeavesM, Token.mapLeavesM_relabel tokens,
        Pattern.mapLeavesM_relabel rest, around.id, around.canFail, map_eq_pure_bind, bind_assoc, pure_bind]

end

end

section

variable {m : Type → Type} [Monad m] [LawfulMonad m]

theorem List.mapM_map_eq {α β α' β' : Type} {f : α → m β} {f' : α' → m β'} {e : α → α'} {e' : β → β'}
    (xs : List α) (h : ∀ x ∈ xs, f' (e x) = e' <$> f x) :
    (xs.map e).mapM f' = List.map e' <$> xs.mapM f := by
  induction xs with
  | nil => simp
  | cons x rest ih =>
      rw [List.map_cons, List.mapM_cons, List.mapM_cons, h x List.mem_cons_self,
        ih fun y member => h y (List.mem_cons_of_mem _ member)]
      simp

theorem Grammar.mapRulesM_relabel (ν ν' : Labels) (id : ν'.id = ν.id) (lookup : ν'.lookup = ν.lookup)
    (maxId : ν'.maxId = ν.maxId) {f f' : Ruleset → Rule → m Rule} (g : Grammar)
    (rule : ∀ s ∈ g.rulesets, ∀ r ∈ s.rules, f' (s.relabel ν) (r.relabel ν) = Rule.relabel ν' <$> f s r) :
    (g.relabel ν).mapRulesM f' = Grammar.relabel ν' <$> g.mapRulesM f := by
  have rulesets : (g.rulesets.map (Ruleset.relabel ν)).mapM
        (fun s => do return { s with rules := ← s.rules.mapM (f' s) }) =
      List.map (Ruleset.relabel ν') <$>
        g.rulesets.mapM (fun s => do return { s with rules := ← s.rules.mapM (f s) }) := by
    refine List.mapM_map_eq g.rulesets fun s hs => ?_
    have rules : (s.relabel ν).rules.mapM (f' (s.relabel ν)) =
        List.map (Rule.relabel ν') <$> s.rules.mapM (f s) :=
      List.mapM_map_eq s.rules fun r hr => rule s hs r hr
    rw [rules]
    simp [Ruleset.relabel, id]
  rw [mapRulesM, mapRulesM]
  show (do return { g.relabel ν with rulesets := ← (g.rulesets.map (Ruleset.relabel ν)).mapM _ }) = _
  rw [rulesets]
  simp [Grammar.relabel, lookup, maxId]

theorem Grammar.mapLeavesM_relabel (ν ν' : Labels) (around : ν.toNodeLabels.Around ν'.toNodeLabels)
    (lookup : ν'.lookup = ν.lookup) (maxId : ν'.maxId = ν.maxId) (captures : ν'.captures = ν.captures)
    {f f' : Option SourcePosition → Matcher → m Matcher}
    (leaf : ∀ pos (x : Matcher), x.isChoice = false →
      f' pos (x.relabel ν.toNodeLabels) = Matcher.relabel ν'.toNodeLabels <$> f pos x)
    (g : Grammar) : (g.relabel ν).mapLeavesM f' = Grammar.relabel ν' <$> g.mapLeavesM f := by
  refine mapRulesM_relabel ν ν' around.id lookup maxId g fun s _ r _ => ?_
  show (do return { r.relabel ν with
    patterns := ← Pattern.mapLeavesM f' (Pattern.relabel ν.toNodeLabels r.patterns) }) = _
  rw [Pattern.mapLeavesM_relabel around leaf]
  simp [Rule.relabel, around.id, captures]

end

/-- Names do not change, so neither does what is found by them. -/
theorem Grammar.names_relabel (ν : Labels) (g : Grammar) : (g.relabel ν).names = g.names := by
  simp [names, relabel, Ruleset.relabel]

theorem Grammar.indexed_relabel (ν : Labels) (g : Grammar) :
    (g.relabel ν).indexed = g.indexed.relabel ν.keepLookup := by
  rw [indexed, names_relabel]
  rfl

theorem Grammar.firstRepeated?_relabel (ν : Labels) (seen : List String) (rulesets : List Ruleset) :
    firstRepeated? seen (rulesets.map (Ruleset.relabel ν)) =
      (firstRepeated? seen rulesets).map (Ruleset.relabel ν) := by
  induction rulesets generalizing seen with
  | nil => rfl
  | cons r rest ih =>
      rw [List.map_cons, firstRepeated?, firstRepeated?]
      show (if seen.contains r.name then _ else firstRepeated? (r.name :: seen) _) = _
      split
      · rfl
      · exact ih (r.name :: seen)

theorem Grammar.indexOf?_relabel (ν : Labels) (g : Grammar) (name : String) :
    (g.relabel ν).indexOf? name = g.indexOf? name := by
  rw [indexOf?, relabel, List.findIdx?_map]
  rfl

theorem Grammar.entry?_relabel (ν : Labels) (g : Grammar) : Grammar.entry? (g.relabel ν) = g.entry? := by
  have named : (g.relabel ν).rulesets.filter (fun r => r.name == entryName) =
      (g.rulesets.filter fun r => r.name == entryName).map (Ruleset.relabel ν) := by
    rw [relabel, List.filter_map]
    rfl
  have repeated : firstRepeated? [] (g.relabel ν).rulesets =
      (firstRepeated? [] g.rulesets).map (Ruleset.relabel ν) := firstRepeated?_relabel ν [] g.rulesets
  unfold Grammar.entry?
  rw [named, repeated, indexOf?_relabel]
  cases g.rulesets.filter fun r => r.name == entryName with
  | nil => cases firstRepeated? [] g.rulesets <;> rfl
  | cons first rest =>
      cases rest with
      | nil => cases firstRepeated? [] g.rulesets <;> rfl
      | cons second rest => rfl

theorem Grammar.resolve?_relabel {ν : Labels} (lookup : ν.lookup = Labels.keep.lookup) (g : Grammar) :
    (g.relabel ν).resolve? = Grammar.relabel ν.keepTargets <$> g.resolve? := by
  have index : (g.relabel ν).lookup = g.lookup := by
    rw [relabel, lookup]
    rfl
  rw [resolve?, resolve?, index]
  refine mapLeavesM_relabel ν ν.keepTargets ⟨rfl, rfl, rfl⟩ rfl rfl rfl (fun pos x leaf => ?_) g
  cases x with
  | ref name target =>
      rw [Matcher.relabel, resolveLeaf, resolveLeaf]
      cases g.lookup.get? name <;> rfl
  | literal | charClass | any => rfl
  | capture | group => cases leaf

mutual

theorem Matcher.allTokens_relabel (ν : NodeLabels) : ∀ x : Matcher,
    (Pattern.allTokensIn (x.relabel ν)).map Token.matcher =
      (Pattern.allTokensIn x).map fun t => t.matcher.relabel ν
  | .capture patterns _ => Pattern.allTokens_relabel ν patterns
  | .group patterns => Pattern.allTokens_relabel ν patterns
  | .ref _ _ => rfl
  | .literal _ _ => rfl
  | .charClass _ _ => rfl
  | .any _ => rfl

theorem Token.allTokens_relabel (ν : NodeLabels) : ∀ ts : List Token,
    (Pattern.allTokensOf (Token.relabel ν ts)).map Token.matcher =
      (Pattern.allTokensOf ts).map fun t => t.matcher.relabel ν
  | [] => rfl
  | ⟨matcher, _, _, _, _, _, _⟩ :: rest => by
      simp only [Token.relabel, Pattern.allTokensOf, List.map_cons, List.map_append,
        matcher.allTokens_relabel ν, Token.allTokens_relabel ν rest]

theorem Pattern.allTokens_relabel (ν : NodeLabels) : ∀ ps : List Pattern,
    (Pattern.allTokens (Pattern.relabel ν ps)).map Token.matcher =
      (Pattern.allTokens ps).map fun t => t.matcher.relabel ν
  | [] => rfl
  | ⟨tokens, _, _⟩ :: rest => by
      simp only [Pattern.relabel, Pattern.allTokens, List.map_append, Token.allTokens_relabel ν tokens,
        Pattern.allTokens_relabel ν rest]

end

/-- What is told of matchers is told of relabelled patterns if each matcher tells it without labels. -/
theorem Pattern.filterMap_relabel {β : Type} {ν : NodeLabels} {f : Matcher → Option β}
    (same : ∀ x : Matcher, f (x.relabel ν) = f x) (ps : List Pattern) :
    (allTokens (Pattern.relabel ν ps)).filterMap (fun t => f t.matcher) =
      (allTokens ps).filterMap fun t => f t.matcher := by
  have matchers : ∀ ps, (allTokens ps).filterMap (fun t => f t.matcher) =
      ((allTokens ps).map Token.matcher).filterMap f := by
    intro ps
    rw [List.filterMap_map]
    rfl
  rw [matchers, matchers, allTokens_relabel, List.filterMap_map, List.filterMap_map]
  exact congrArg (List.filterMap · (allTokens ps)) (funext fun t => same t.matcher)

/-- The place of the ruleset that a matcher refers to. -/
def Matcher.target? : Matcher → Option Nat
  | .ref _ target => target
  | _ => none

theorem Pattern.targets_relabel {ν : NodeLabels} (target : ν.target = NodeLabels.keep.target)
    (ps : List Pattern) : Pattern.targets (Pattern.relabel ν ps) = Pattern.targets ps := by
  have same : ∀ x : Matcher, (x.relabel ν).target? = x.target? := by
    intro x
    cases x with
    | ref name old => simp only [Matcher.target?, Matcher.relabel, target, NodeLabels.keep]
    | capture | group | literal | charClass | any => rfl
  exact Pattern.filterMap_relabel same ps

theorem Grammar.checkReachable_relabel {ν : Labels} (target : ν.target = Labels.keep.target)
    (g : Grammar) (entry : Nat) : (g.relabel ν).checkReachable entry = g.checkReachable entry := by
  have references : (g.relabel ν).references = g.references := by
    simp only [Grammar.references, relabel, List.map_map]
    refine List.map_congr_left fun s _ => ?_
    simp only [Function.comp, Ruleset.relabel, List.flatMap_map]
    exact congrArg (s.rules.flatMap ·) (funext fun r => Pattern.targets_relabel target r.patterns)
  have unseen : ∀ seen : List Nat, (g.relabel ν).rulesets.zipIdx.find? (fun s => !seen.contains s.2) =
      (g.rulesets.zipIdx.find? fun s => !seen.contains s.2).map (Prod.map (Ruleset.relabel ν) id) := by
    intro seen
    rw [relabel, List.zipIdx_map, List.find?_map]
    rfl
  rw [checkReachable, checkReachable, references]
  rw [unseen]
  cases g.rulesets.zipIdx.find? fun s => !(Graph.reachable g.references [entry]).contains s.2 <;> rfl

/-! ## Slots -/

/-- The labels but for slots, which are left as they are. -/
def NodeLabels.keepSlots (ν : NodeLabels) : NodeLabels := { ν with slot := keep.slot }

/-- The labels but for slots and layouts, which are left as they are. -/
def Labels.keepSlots (ν : Labels) : Labels := { ν with slot := keep.slot, captures := keep.captures }

theorem Pattern.posOr_relabel (ν : NodeLabels) (ts : List Token) (pos : Option SourcePosition) :
    Pattern.posOr (Token.relabel ν ts) pos = Pattern.posOr ts pos := by
  cases ts with
  | nil => rfl
  | cons t rest =>
      cases t
      rfl

section

variable (ν : NodeLabels) (ruleset : String)

mutual

theorem Matcher.layOut_relabel (next : Nat) (repeated : Bool) (pos : Option SourcePosition) :
    ∀ x : Matcher, (x.relabel ν).layOut ruleset next repeated pos =
      (fun p => (p.1.relabel ν.keepSlots, p.2)) <$> x.layOut ruleset next repeated pos
  | .capture patterns slot => by
      simp only [Matcher.relabel, Matcher.layOut, Pattern.layOut_relabel _ _ _ _ patterns,
        map_eq_pure_bind, bind_assoc, pure_bind]
      rfl
  | .group patterns => by
      simp only [Matcher.relabel, Matcher.layOut, Pattern.layOut_relabel _ _ _ _ patterns,
        map_eq_pure_bind, bind_assoc, pure_bind]
  | .ref _ _ => rfl
  | .literal _ _ => rfl
  | .charClass _ _ => rfl
  | .any _ => rfl

theorem Token.layOut_relabel (next : Nat) (repeated : Bool) (pos : Option SourcePosition) :
    ∀ ts : List Token, Token.layOut ruleset next repeated pos (Token.relabel ν ts) =
      (fun p => (Token.relabel ν.keepSlots p.1, p.2)) <$> Token.layOut ruleset next repeated pos ts
  | [] => rfl
  | ⟨matcher, _, _, _, _, _, _⟩ :: rest => by
      simp only [Token.relabel, Token.layOut, matcher.layOut_relabel, Token.layOut_relabel _ _ _ rest,
        map_eq_pure_bind, bind_assoc, pure_bind]
      rfl

theorem Pattern.layOut_relabel (next : Nat) (repeated : Bool) (pos : Option SourcePosition)
    (expected : Option (List Bool)) :
    ∀ ps : List Pattern, Pattern.layOut ruleset next repeated pos expected (Pattern.relabel ν ps) =
      (fun p => (Pattern.relabel ν.keepSlots p.1, p.2)) <$>
        Pattern.layOut ruleset next repeated pos expected ps
  | [] => rfl
  | ⟨tokens, _, _⟩ :: rest => by
      simp only [Pattern.relabel, Pattern.layOut, Token.layOut_relabel _ _ _ tokens,
        Pattern.layOut_relabel _ _ _ _ rest, Pattern.posOr_relabel, map_eq_pure_bind, bind_assoc, pure_bind]
      rfl

end

end

theorem Grammar.layOut?_relabel (ν : Labels) (g : Grammar) :
    (g.relabel ν).layOut? = Grammar.relabel ν.keepSlots <$> g.layOut? := by
  refine mapRulesM_relabel ν ν.keepSlots rfl rfl rfl g fun s _ r _ => ?_
  have patterns := Pattern.layOut_relabel ν.toNodeLabels s.name 1 false r.pos none r.patterns
  show (Pattern.layOut s.name 1 false r.pos none (Pattern.relabel ν.toNodeLabels r.patterns) >>= _) = _
  rw [patterns]
  simp only [map_eq_pure_bind, bind_assoc, pure_bind]
  rfl

/-! ## Terminals -/

/-- The labels but for the ids of terminals, which are left as they are. -/
def Labels.keepTerminals (ν : Labels) : Labels :=
  { ν with literal := keep.literal, charClass := keep.charClass, any := keep.any }

theorem Grammar.internLeaf_relabel (ν : Labels) (pos : Option SourcePosition) (x : Matcher)
    (leaf : x.isChoice = false) : internLeaf pos (x.relabel ν.toNodeLabels) =
      Matcher.relabel ν.keepTerminals.toNodeLabels <$> internLeaf pos x := by
  funext table
  cases x with
  | ref | literal | any => rfl
  | charClass spec terminal =>
      show internLeaf pos (.charClass spec _) table = (do
        let (y, table) ← internLeaf pos (.charClass spec terminal) table
        pure (y.relabel ν.keepTerminals.toNodeLabels, table))
      simp only [internLeaf]
      cases table.charClass spec <;> rfl
  | capture | group => cases leaf

theorem Grammar.intern?_relabel (ν : Labels) (g : Grammar) :
    (g.relabel ν).intern? = (fun p => (p.1.relabel ν.keepTerminals, p.2)) <$> g.intern? := by
  have leaves := mapLeavesM_relabel ν ν.keepTerminals ⟨rfl, rfl, rfl⟩ rfl rfl rfl (internLeaf_relabel ν) g
  rw [intern?, intern?, leaves, StateT.run_map]

/-! ## Failing -/

/-- The labels but for what can fail, which is left as it is. -/
def NodeLabels.keepFailing (ν : NodeLabels) : NodeLabels := { ν with canFail := keep.canFail }

/-- The labels but for what can fail, which is left as it is. -/
def Labels.keepFailing (ν : Labels) : Labels := { ν with canFail := keep.canFail }

section

variable (ν : NodeLabels)

mutual

theorem Matcher.mayFail_relabel : ∀ x : Matcher, (x.relabel ν).mayFail = x.mayFail
  | .capture patterns _ => Pattern.allMayFail_relabel patterns
  | .group patterns => Pattern.allMayFail_relabel patterns
  | .ref _ _ => rfl
  | .literal _ _ => rfl
  | .charClass _ _ => rfl
  | .any _ => rfl

theorem Token.someMayFail_relabel : ∀ ts : List Token,
    Token.someMayFail (Token.relabel ν ts) = Token.someMayFail ts
  | [] => rfl
  | ⟨matcher, _, _, _, _, _, _⟩ :: rest => by
      simp only [Token.relabel, Token.someMayFail, matcher.mayFail_relabel, Token.someMayFail_relabel rest]

theorem Pattern.allMayFail_relabel : ∀ ps : List Pattern,
    Pattern.allMayFail (Pattern.relabel ν ps) = Pattern.allMayFail ps
  | [] => rfl
  | ⟨tokens, _, _⟩ :: rest => by
      simp only [Pattern.relabel, Pattern.allMayFail, Token.someMayFail_relabel tokens,
        Pattern.allMayFail_relabel rest]

end

mutual

theorem Matcher.markFailing_relabel : ∀ x : Matcher,
    (x.relabel ν).markFailing = x.markFailing.relabel ν.keepFailing
  | .capture patterns _ => by
      simp only [Matcher.relabel, Matcher.markFailing, Pattern.markFailing_relabel patterns]
      rfl
  | .group patterns => by
      simp only [Matcher.relabel, Matcher.markFailing, Pattern.markFailing_relabel patterns]
  | .ref _ _ => rfl
  | .literal _ _ => rfl
  | .charClass _ _ => rfl
  | .any _ => rfl

theorem Token.markFailing_relabel : ∀ ts : List Token,
    Token.markFailing (Token.relabel ν ts) = Token.relabel ν.keepFailing (Token.markFailing ts)
  | [] => rfl
  | ⟨matcher, _, _, _, _, _, _⟩ :: rest => by
      simp only [Token.relabel, Token.markFailing, matcher.markFailing_relabel, Token.markFailing_relabel rest]
      rfl

theorem Pattern.markFailing_relabel : ∀ ps : List Pattern,
    Pattern.markFailing (Pattern.relabel ν ps) = Pattern.relabel ν.keepFailing (Pattern.markFailing ps)
  | [] => rfl
  | ⟨tokens, _, _⟩ :: rest => by
      simp only [Pattern.relabel, Pattern.markFailing, Token.markFailing_relabel tokens,
        Token.someMayFail_relabel, Pattern.markFailing_relabel rest]
      rfl

end

end

theorem Grammar.markFailing_relabel (ν : Labels) (g : Grammar) :
    (g.relabel ν).markFailing = g.markFailing.relabel ν.keepFailing := by
  simp only [markFailing, relabel, Ruleset.relabel, List.map_map, Function.comp_def, Rule.relabel,
    Pattern.markFailing_relabel]
  rfl

end PegFlow
