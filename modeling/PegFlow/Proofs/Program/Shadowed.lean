/-
# PegFlow.Proofs.Program.Shadowed -- what is found never to be tried

`Shadows g w x y base` says that the finding `w` is about the pattern `y`, whose ops begin at
`base`: it comes after the pattern `x`, which is found unable to fail. Every finding of an
unreachable alternative is one (`AnnotatedGrammar.shadows_of_warning`), and where `x` is sure
no op of `y` may run (`Shadows.not_live`).
-/
import PegFlow.Proofs.Grammar.LeftRecursion
import PegFlow.Proofs.Program.Live
import Mathlib.Algebra.GroupWithZero.Nat

namespace PegFlow

set_option autoImplicit false

/-! ## What patterns say -/

/-- Every pattern inside the part says by its tokens whether it can fail. -/
def Part.Marked : Part → Prop
  | .rules _ rs => ∀ r ∈ rs, Pattern.Marked r.patterns
  | .choice patterns => Pattern.Marked patterns
  | .pattern tokens => Token.Marked tokens
  | .sequence tokens => Token.Marked tokens
  | .token t => t.matcher.Marked
  | .quantified t => t.matcher.Marked
  | .matcher m => m.Marked

theorem Compiled.marked {g : AnnotatedGrammar} {part : Part} {base pass fail : Nat}
    (marked : ∀ s ∈ g.grammar.rulesets, ∀ r ∈ s.rules, Pattern.Marked r.patterns)
    (compiled : Compiled g part base pass fail) : part.Marked := by
  induction compiled with
  | whole => trivial
  | ruleset split => exact marked _ (by simp [split])
  | rule _ ih => exact ih _ List.mem_cons_self
  | laterRules _ ih => exact fun r member => ih r (List.mem_cons_of_mem _ member)
  | @pattern _ _ _ x _ _ ih =>
      obtain ⟨_, _, _⟩ := x
      exact ih.2.1
  | @laterPatterns _ _ _ x _ _ ih =>
      obtain ⟨_, _, _⟩ := x
      exact ih.2.2
  | @token _ _ _ t _ _ ih =>
      obtain ⟨_, _, _, _, _, _, _⟩ := t
      exact ih.1
  | @laterTokens _ _ _ t _ _ ih =>
      obtain ⟨_, _, _, _, _, _, _⟩ := t
      exact ih.2
  | lone _ _ ih | several _ _ ih => exact ih
  | ahead _ _ ih | notAhead _ _ _ ih | here _ _ _ ih => exact ih
  | repeated _ _ ih | once _ _ _ ih | optional _ _ _ _ ih | optionalSlots _ _ _ _ ih => exact ih
  | group _ ih | capture _ ih => exact ih

/-! ## How many ops there are -/

/-- The number of ops of a pattern. -/
def Pattern.size (x : Pattern) : Nat := (Part.pattern x.tokens).fragment.size

theorem Pattern.fragment_size (x : Pattern) (rest : List Pattern) :
    (Pattern.fragment (x :: rest)).size = (Pattern.fragment rest).size + x.size := by
  obtain ⟨tokens, canFail, id⟩ := x
  have construct : (Part.pattern tokens).IsConstruct := trivial
  rw [Fragment.size, Pattern.fragment]
  refine List.length_append.trans (congrArg₂ (· + ·) rfl ?_)
  exact (Part.fragment_movable construct).length_eq _ _ _

theorem Pattern.fragment_size_le (front : List Pattern) (y : Pattern) (back : List Pattern) :
    (Pattern.fragment back).size + y.size ≤ (Pattern.fragment (front ++ y :: back)).size := by
  induction front with
  | nil => exact (Pattern.fragment_size y back).ge
  | cons x rest ih =>
      rw [List.cons_append, Pattern.fragment_size]
      exact ih.trans (Nat.le_add_right _ _)

namespace Program

theorem rulesFragment_length (index base pass fail : Nat) (rules : List Rule) :
    (rulesFragment index rules base pass fail).ops.length =
      (rules.map fun r => (Pattern.fragment r.patterns).size + 1).sum := by
  induction rules generalizing index with
  | nil => rfl
  | cons r rest ih =>
      rw [rulesFragment, List.map_cons, List.sum_cons, ← ih (index + 1), Nat.add_comm (_ + 1)]
      refine List.length_append.trans (congrArg₂ (· + ·) rfl ?_)
      exact congrArg (· + 1) ((Pattern.fragment_movable r.patterns).length_eq _ _ _)

theorem rulesFragment_size_le (index index' : Nat) (front : List Rule) (r : Rule) (back : List Rule) :
    (rulesFragment index back).size + 1 + (Pattern.fragment r.patterns).size ≤
      (rulesFragment index' (front ++ r :: back)).size := by
  simp only [Fragment.size, rulesFragment_length, List.map_append, List.map_cons, List.sum_append, List.sum_cons]
  omega

end Program

open Program

/-! ## What findings are about -/

/-- The finding that the options of a choice after a certain one can never match. -/
def Warning.options (ruleset : String) (pos : Option SourcePosition) (option rest : Nat) : Warning :=
  { kind := .unreachableAlternative, ruleset, pos
    message := s!"{rest} option(s) after option {option} of a nested choice can never match" }

/-- The finding is that pattern `y`, whose ops begin at `base`, is never tried since pattern `x`
before it cannot fail: both are options of a choice, or alternatives of a ruleset. -/
inductive Shadows (g : AnnotatedGrammar) : Warning → (x y : Pattern) → (base : Nat) → Prop
  | option {ruleset : String} {pos : Option SourcePosition} {base pass fail : Nat} {x y : Pattern}
      {before between rest : List Pattern}
      (choice : Compiled g (.choice (before ++ x :: (between ++ y :: rest))) base pass fail)
      (never : x.canFail = false) :
      Shadows g (.options ruleset pos (before.length + 1) (between ++ y :: rest).length) x y
        (base + (Pattern.fragment rest).size)
  | alternative {sets sets' : List Ruleset} {s : Ruleset} {earlier later : List Rule} {r : Rule}
      {before rest : List Pattern} {x y : Pattern} (ruleset : g.grammar.rulesets = sets ++ s :: sets')
      (rule : s.rules = earlier ++ r :: later) (pattern : r.patterns = before ++ y :: rest)
      (blocked : x ∈ earlier.flatMap Rule.patterns ++ before) (never : x.canFail = false) :
      Shadows g (.shadowed s.name r.pos ((earlier.flatMap Rule.patterns ++ before).length + 1)) x y
        (2 + (rulesetOps 2 0 sets).1.length + (rulesFragment 0 later).size + 1 + (Pattern.fragment rest).size)

section

variable {g : AnnotatedGrammar} {w : Warning} {x y : Pattern} {index base pass fail : Nat}

theorem Compiled.laterRules_append {front rest : List Rule}
    (rules : Compiled g (.rules index (front ++ rest)) base pass fail) :
    Compiled g (.rules (index + front.length) rest) base pass fail := by
  induction front generalizing index with
  | nil => exact rules
  | cons r front ih =>
      rw [List.length_cons, Nat.add_comm front.length 1, ← Nat.add_assoc]
      exact ih rules.laterRules

theorem Compiled.laterPatterns_append {front rest : List Pattern}
    (choice : Compiled g (.choice (front ++ rest)) base pass fail) : Compiled g (.choice rest) base pass fail := by
  induction front with
  | nil => exact choice
  | cons x front ih => exact ih choice.laterPatterns

/-- The patterns of a rule are among the ops of its ruleset. -/
theorem Compiled.rule_of_split {sets sets' : List Ruleset} {s : Ruleset} {earlier later : List Rule} {r : Rule}
    (ruleset : g.grammar.rulesets = sets ++ s :: sets') (rule : s.rules = earlier ++ r :: later) :
    ∃ pass fail, Compiled g (.choice r.patterns)
      (2 + (rulesetOps 2 0 sets).1.length + (rulesFragment 0 later).size + 1) pass fail := by
  have rules := Compiled.ruleset ruleset
  rw [rule] at rules
  have choice := rules.laterRules_append.rule
  rw [rulesFragment_length, ← rulesFragment_length 0 2 0 1] at choice
  exact ⟨_, _, choice⟩

theorem Shadows.compiled (shadows : Shadows g w x y base) :
    ∃ pass fail, Compiled g (.pattern y.tokens) base pass fail := by
  cases shadows with
  | @option _ _ base pass fail _ _ before between rest choice never =>
      have pattern := choice.laterPatterns_append.laterPatterns.laterPatterns_append.pattern
      rw [(Pattern.fragment_movable rest).length_eq] at pattern
      exact ⟨_, _, pattern⟩
  | @alternative sets sets' s earlier later r before rest _ _ ruleset rule split blocked never =>
      obtain ⟨pass, fail, choice⟩ := Compiled.rule_of_split ruleset rule
      rw [split] at choice
      have pattern := choice.laterPatterns_append.pattern
      rw [(Pattern.fragment_movable rest).length_eq] at pattern
      exact ⟨_, _, pattern⟩

/-- What comes before is found unable to fail. -/
theorem Shadows.never (shadows : Shadows g w x y base) : x.canFail = false := by
  cases shadows with
  | option choice never => exact never
  | alternative ruleset rule pattern blocked never => exact never

theorem Pattern.someSure_of_mem {patterns : List Pattern} (member : x ∈ patterns) (sure : x.sure = true) :
    Pattern.someSure patterns = true := by
  induction patterns with
  | nil => cases member
  | cons y rest ih =>
      obtain ⟨tokens, canFail, id⟩ := y
      rw [Pattern.someSure, Bool.or_eq_true]
      rcases List.mem_cons.1 member with rfl | later
      · exact Or.inl sure
      · exact Or.inr (ih later)

/-- What is found never to be tried since a sure pattern comes before it is never tried. -/
theorem Shadows.not_live (linked : g.Linked) (shadows : Shadows g w x y base) (sure : x.sure = true) {t : Nat}
    (among : Among base y.size t) : ¬ IsLive g t := by
  cases shadows with
  | @option _ _ base pass fail _ _ before between rest choice never =>
      have size := Pattern.fragment_size_le between y rest
      exact choice.laterPatterns_append.not_live_options linked sure (by simp only [Among] at among ⊢; omega)
  | @alternative sets sets' s earlier later r before rest _ _ ruleset rule split blocked never =>
      rcases List.mem_append.1 blocked with inRule | here
      · obtain ⟨r', member, inside⟩ := List.mem_flatMap.1 inRule
        obtain ⟨front, between, rfl⟩ := List.append_of_mem member
        have rules := Compiled.ruleset ruleset
        rw [rule, List.append_assoc, List.cons_append] at rules
        have size := rulesFragment_size_le 0 ((sets.flatMap Ruleset.rules).length + front.length + 1) between r later
        have size' := Pattern.fragment_size_le before y rest
        rw [← split] at size'
        refine rules.laterRules_append.not_live_rules linked (Pattern.someSure_of_mem inside sure) ?_
        simp only [Among] at among ⊢
        omega
      · obtain ⟨front, between, rfl⟩ := List.append_of_mem here
        obtain ⟨pass, fail, choice⟩ := Compiled.rule_of_split ruleset rule
        rw [split, List.append_assoc, List.cons_append] at choice
        have size := Pattern.fragment_size_le between y rest
        exact choice.laterPatterns_append.not_live_options linked sure (by simp only [Among] at among ⊢; omega)

end

/-! ## Every finding of an unreachable alternative -/

namespace Warning

variable {w : Warning} {ruleset : String}

theorem mem_ofChoice {pos : Option SourcePosition} {patterns : List Pattern}
    (member : w ∈ ofChoice ruleset pos patterns) : ∃ before x y rest, patterns = before ++ x :: y :: rest ∧
      x.canFail = false ∧ w = options ruleset pos (before.length + 1) (y :: rest).length := by
  unfold ofChoice at member
  split at member
  · cases member
  · rename_i i found
    split at member
    · cases member
    · rename_i some_
      obtain ⟨lt, never, -⟩ := List.findIdx?_eq_some_iff_getElem.1 found
      obtain ⟨y, rest, later⟩ := List.exists_cons_of_length_pos
        (show 0 < (patterns.drop (i + 1)).length by rw [List.length_drop]; omega)
      refine ⟨patterns.take i, patterns[i], y, rest, ?_, by simpa using never, ?_⟩
      · rw [← later, List.getElem_cons_drop, List.take_append_drop]
      · rw [List.mem_singleton.1 member, ← later, List.length_drop, List.length_take, Nat.min_eq_left lt.le]
        rfl

theorem mem_ofAlternatives {number : Nat} {blocked : Bool} {alternatives : List (Option SourcePosition × Pattern)}
    (member : w ∈ ofAlternatives ruleset number blocked alternatives) :
    (∃ before pos y rest, alternatives = before ++ (pos, y) :: rest ∧
      (blocked = true ∨ ∃ e ∈ before, e.2.canFail = false) ∧
      w = shadowed ruleset pos (number + before.length)) ∨
    ∃ e ∈ alternatives, w ∈ ofTokens ruleset e.2.tokens := by
  induction alternatives generalizing number blocked with
  | nil => cases member
  | cons e others ih =>
      obtain ⟨pos, p⟩ := e
      rw [ofAlternatives, List.mem_append, List.mem_append] at member
      rcases member with (here | inside) | later
      · cases blocked with
        | false => cases here
        | true => exact Or.inl ⟨[], pos, p, others, rfl, Or.inl rfl, List.mem_singleton.1 here⟩
      · exact Or.inr ⟨_, List.mem_cons_self, inside⟩
      · rcases ih later with ⟨before, pos', y, rest, rfl, never, rfl⟩ | ⟨e, among, inside⟩
        · refine Or.inl ⟨(pos, p) :: before, pos', y, rest, rfl, ?_, ?_⟩
          · rw [Bool.or_eq_true, Bool.not_eq_true', or_assoc] at never
            simpa using never
          · rw [List.length_cons, Nat.add_assoc, Nat.add_comm 1]
        · exact Or.inr ⟨e, List.mem_cons_of_mem _ among, inside⟩

end Warning

/-- An alternative of a ruleset is a pattern of one of its rules. -/
theorem Rule.alternative_split {rules : List Rule} {pos : Option SourcePosition} {y : Pattern}
    {before rest : List (Option SourcePosition × Pattern)}
    (split : (rules.flatMap fun r => r.patterns.map fun p => (r.pos, p)) = before ++ (pos, y) :: rest) :
    ∃ earlier r later front back, rules = earlier ++ r :: later ∧ r.patterns = front ++ y :: back ∧
      r.pos = pos ∧ before.map Prod.snd = earlier.flatMap Rule.patterns ++ front := by
  induction rules generalizing before with
  | nil => simp at split
  | cons r others ih =>
      have onward : ∀ {before}, (others.flatMap fun r => r.patterns.map fun p => (r.pos, p)) =
          before ++ (pos, y) :: rest → ∃ earlier r' later front back, r :: others = earlier ++ r' :: later ∧
            r'.patterns = front ++ y :: back ∧ r'.pos = pos ∧
              r.patterns ++ before.map Prod.snd = earlier.flatMap Rule.patterns ++ front := by
        intro before among
        obtain ⟨earlier, r', later, front, back, rfl, pattern, place, known⟩ := ih among
        exact ⟨r :: earlier, r', later, front, back, rfl, pattern, place, by simp [known]⟩
      rw [List.flatMap_cons, List.append_eq_append_iff] at split
      rcases split with ⟨between, rfl, among⟩ | ⟨own, here, same⟩
      · obtain ⟨earlier, r', later, front, back, rules, pattern, place, known⟩ := onward among
        exact ⟨earlier, r', later, front, back, rules, pattern, place, by simp [← known, Function.comp_def]⟩
      · cases own with
        | nil =>
            obtain ⟨earlier, r', later, front, back, rules, pattern, place, known⟩ :=
              onward (same.symm.trans (List.nil_append _).symm)
            refine ⟨earlier, r', later, front, back, rules, pattern, place, ?_⟩
            rw [← known, ← List.append_nil before, ← here]
            simp [Function.comp_def]
        | cons e own =>
            obtain ⟨rfl, -⟩ := List.cons.inj same
            obtain ⟨front, others', pattern, rfl, ending⟩ := List.map_eq_append_iff.1 here
            obtain ⟨y', back, rfl, first, -⟩ := List.map_eq_cons_iff.1 ending
            cases first
            exact ⟨[], r, others, front, back, rfl, pattern, rfl, by simp [Function.comp_def]⟩

section

variable {g : AnnotatedGrammar} {w : Warning} {ruleset : String} {base pass fail : Nat}

/-- The finding shadows some pattern. -/
def Shadowing (g : AnnotatedGrammar) (w : Warning) : Prop := ∃ x y base, Shadows g w x y base

theorem Compiled.shadowing_of_choice {patterns : List Pattern} {pos : Option SourcePosition}
    (choice : Compiled g (.choice patterns) base pass fail) (member : w ∈ Warning.ofChoice ruleset pos patterns) :
    Shadowing g w := by
  obtain ⟨before, x, y, rest, rfl, never, rfl⟩ := Warning.mem_ofChoice member
  exact ⟨x, y, _, @Shadows.option g ruleset pos base pass fail x y before [] rest choice never⟩

/-- The tokens of a pattern are compiled with it. -/
theorem Compiled.sequence_of_pattern {tokens : List Token} (pattern : Compiled g (.pattern tokens) base pass fail) :
    ∃ base pass fail, Compiled g (.sequence tokens) base pass fail := by
  by_cases short : tokens.length < 2
  · exact ⟨_, _, _, pattern.lone short⟩
  · exact ⟨_, _, _, pattern.several short⟩

/-- The matcher of a token is compiled with it. -/
theorem Compiled.matcher_of_token {t : Token} (token : Compiled g (.token t) base pass fail) :
    ∃ base pass fail, Compiled g (.matcher t.matcher) base pass fail := by
  obtain ⟨base, pass, fail, quantified⟩ : ∃ base pass fail, Compiled g (.quantified t) base pass fail := by
    cases ahead : t.ahead with
    | true => exact ⟨_, _, _, token.ahead ahead⟩
    | false => cases notAhead : t.notAhead with
      | true => exact ⟨_, _, _, token.notAhead ahead notAhead⟩
      | false => exact ⟨_, _, _, token.here ahead notAhead⟩
  cases repeated : t.repeated with
  | true => exact ⟨_, _, _, quantified.repeated repeated⟩
  | false => cases required : t.required with
    | true => exact ⟨_, _, _, quantified.once repeated required⟩
    | false => cases slots : t.matcher.slots.isEmpty with
      | true => exact ⟨_, _, _, quantified.optional repeated required slots⟩
      | false => exact ⟨_, _, _, quantified.optionalSlots repeated required slots⟩

mutual

theorem Matcher.shadowing : ∀ (m : Matcher) {pos : Option SourcePosition} {base pass fail : Nat},
    Compiled g (.matcher m) base pass fail → ∀ w ∈ Warning.ofMatcher ruleset pos m, Shadowing g w
  | .literal _ _, _, _, _, _, _, _, member => nomatch member
  | .charClass _ _, _, _, _, _, _, _, member => nomatch member
  | .any _, _, _, _, _, _, _, member => nomatch member
  | .ref _ _, _, _, _, _, _, _, member => nomatch member
  | .group patterns, _, _, _, _, matcher, w, member => by
      rw [Warning.ofMatcher, List.mem_append] at member
      exact member.elim matcher.group.shadowing_of_choice (Pattern.shadowing patterns matcher.group w)
  | .capture patterns _, _, _, _, _, matcher, w, member => by
      rw [Warning.ofMatcher, List.mem_append] at member
      exact member.elim matcher.capture.shadowing_of_choice (Pattern.shadowing patterns matcher.capture w)

theorem Token.shadowing : ∀ (ts : List Token) {base pass fail : Nat}, Compiled g (.sequence ts) base pass fail →
    ∀ w ∈ Warning.ofTokens ruleset ts, Shadowing g w
  | [], _, _, _, _, _, member => nomatch member
  | ⟨matcher, _, _, _, _, _, _⟩ :: rest, _, _, _, sequence, w, member => by
      rw [Warning.ofTokens, List.mem_append] at member
      obtain ⟨_, _, _, compiled⟩ := sequence.token.matcher_of_token
      exact member.elim (Matcher.shadowing matcher compiled w) (Token.shadowing rest sequence.laterTokens w)

theorem Pattern.shadowing : ∀ (ps : List Pattern) {base pass fail : Nat}, Compiled g (.choice ps) base pass fail →
    ∀ w ∈ Warning.ofPatterns ruleset ps, Shadowing g w
  | [], _, _, _, _, _, member => nomatch member
  | ⟨tokens, _, _⟩ :: rest, _, _, _, choice, w, member => by
      rw [Warning.ofPatterns, List.mem_append] at member
      obtain ⟨_, _, _, compiled⟩ := choice.pattern.sequence_of_pattern
      exact member.elim (Token.shadowing tokens compiled w) (Pattern.shadowing rest choice.laterPatterns w)

end

/-- Every finding of an unreachable alternative in an accepted grammar shadows some pattern. -/
theorem AnnotatedGrammar.shadowing_of_warning {g : Grammar} {callbacks : List String} {a : AnnotatedGrammar}
    (accepted : g.annotate? callbacks = .ok a) {w : Warning} (member : w ∈ a.warnings)
    (kind : w.kind = .unreachableAlternative) : Shadowing a w := by
  rw [Grammar.annotate?_warnings accepted, Grammar.warnings, List.mem_append] at member
  rcases member with inRuleset | recursion
  · obtain ⟨s, within, found⟩ := List.mem_flatMap.1 inRuleset
    obtain ⟨sets, sets', ruleset⟩ := List.append_of_mem within
    rcases Warning.mem_ofAlternatives found with ⟨before, pos, y, rest, split, never, rfl⟩ | ⟨e, among, inside⟩
    · obtain ⟨earlier, r, later, front, back, rule, pattern, rfl, known⟩ := Rule.alternative_split split
      obtain ⟨e, member, never⟩ := never.resolve_left Bool.false_ne_true
      have blocked : e.2 ∈ earlier.flatMap Rule.patterns ++ front := known ▸ List.mem_map_of_mem member
      have shadows := Shadows.alternative ruleset rule pattern blocked never
      rw [← known, List.length_map, Nat.add_comm before.length] at shadows
      exact ⟨e.2, y, _, shadows⟩
    · obtain ⟨r, ofRule, here⟩ := List.mem_flatMap.1 among
      obtain ⟨x, option, rfl⟩ := List.mem_map.1 here
      obtain ⟨earlier, later, rule⟩ := List.append_of_mem ofRule
      obtain ⟨front, back, pattern⟩ := List.append_of_mem option
      obtain ⟨_, _, choice⟩ := Compiled.rule_of_split ruleset rule
      rw [pattern] at choice
      obtain ⟨_, _, _, sequence⟩ := choice.laterPatterns_append.pattern.sequence_of_pattern
      exact Token.shadowing x.tokens sequence w inside
  · obtain ⟨s, -, rfl⟩ := List.mem_map.1 recursion
    cases kind

end

end PegFlow
