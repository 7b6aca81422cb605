/-
# PegFlow.Proofs.Grammar.Sure -- patterns that always match

The annotation `canFail` follows what a token matches and whether it is required, and not
whether it is repeated. A round of a repetition that matches nothing does not count, so a
required token that is repeated may fail although what it matches never does. A pattern is
`sure` by the same rules when such a token counts as one that can fail.

Every pattern that is sure is annotated so, and one that is annotated so and holds no required
token that is repeated is sure (`Pattern.Marked.canFail_eq_false`).
-/
import PegFlow.Proofs.Grammar.Linked

namespace PegFlow

set_option autoImplicit false

mutual

/-- Whether a matcher always matches. -/
def Matcher.sure : Matcher → Bool
  | .literal text _ => text == ""
  | .capture patterns _ => Pattern.someSure patterns
  | .group patterns => Pattern.someSure patterns
  | _ => false

/-- Whether a sequence always matches. -/
def Token.allSure : List Token → Bool
  | [] => true
  | ⟨matcher, required, repeated, _, notAhead, _, _⟩ :: rest =>
    (!notAhead && (!required || !repeated && matcher.sure)) && Token.allSure rest

/-- Whether some pattern of a choice always matches. -/
def Pattern.someSure : List Pattern → Bool
  | [] => false
  | ⟨tokens, _, _⟩ :: rest => Token.allSure tokens || Pattern.someSure rest

end

/-- Whether a pattern always matches. -/
def Pattern.sure (x : Pattern) : Bool := Token.allSure x.tokens

/-- A token that must match and does so again and again. -/
def Token.Insists (t : Token) : Prop := t.required = true ∧ t.repeated = true

/-! ## What is sure cannot fail by the rules of the annotation -/

mutual

theorem Matcher.mayFail_of_sure : ∀ m : Matcher, m.sure = true → m.mayFail = false
  | .literal text _, sure => by
      rw [Matcher.sure, beq_iff_eq] at sure
      rw [Matcher.mayFail, sure]
      rfl
  | .capture patterns _, sure => by
      rw [Matcher.sure] at sure
      rw [Matcher.mayFail]
      exact Pattern.allMayFail_of_sure patterns sure
  | .group patterns, sure => by
      rw [Matcher.sure] at sure
      rw [Matcher.mayFail]
      exact Pattern.allMayFail_of_sure patterns sure
  | .ref _ _, sure => nomatch sure
  | .charClass _ _, sure => nomatch sure
  | .any _, sure => nomatch sure

theorem Token.someMayFail_of_sure : ∀ ts : List Token, Token.allSure ts = true → Token.someMayFail ts = false
  | [], _ => rfl
  | ⟨matcher, required, repeated, _, notAhead, _, _⟩ :: rest, sure => by
      rw [Token.allSure, Bool.and_eq_true] at sure
      obtain ⟨here, later⟩ := sure
      rw [Token.someMayFail, Token.someMayFail_of_sure rest later, Bool.or_false]
      have inside := Matcher.mayFail_of_sure matcher
      cases notAhead <;> cases required <;> cases repeated <;> simp_all

theorem Pattern.allMayFail_of_sure : ∀ ps : List Pattern, Pattern.someSure ps = true → Pattern.allMayFail ps = false
  | [], sure => nomatch sure
  | ⟨tokens, _, _⟩ :: rest, sure => by
      rw [Pattern.someSure, Bool.or_eq_true] at sure
      rw [Pattern.allMayFail, Bool.and_eq_false_iff]
      exact sure.imp (Token.someMayFail_of_sure tokens) (Pattern.allMayFail_of_sure rest)

end

/-! ## What cannot fail by the rules of the annotation is sure, but for insisting tokens -/

mutual

theorem Matcher.sure_of_mayFail : ∀ m : Matcher, (∀ t ∈ Pattern.allTokensIn m, ¬ t.Insists) →
    m.mayFail = false → m.sure = true
  | .literal text _, _, never => by
      rw [Matcher.mayFail, bne_eq_false_iff_eq] at never
      rw [Matcher.sure, never]
      rfl
  | .capture patterns _, free, never => by
      rw [Matcher.mayFail] at never
      rw [Matcher.sure]
      exact Pattern.sure_of_allMayFail patterns free never
  | .group patterns, free, never => by
      rw [Matcher.mayFail] at never
      rw [Matcher.sure]
      exact Pattern.sure_of_allMayFail patterns free never
  | .ref _ _, _, never => nomatch never
  | .charClass _ _, _, never => nomatch never
  | .any _, _, never => nomatch never

theorem Token.sure_of_someMayFail : ∀ ts : List Token, (∀ t ∈ Pattern.allTokensOf ts, ¬ t.Insists) →
    Token.someMayFail ts = false → Token.allSure ts = true
  | [], _, _ => rfl
  | ⟨matcher, required, repeated, _, notAhead, _, _⟩ :: rest, free, never => by
      rw [Pattern.allTokensOf, List.forall_mem_cons, List.forall_mem_append] at free
      obtain ⟨here, within, later⟩ := free
      rw [Token.someMayFail, Bool.or_eq_false_iff] at never
      rw [Token.allSure, Token.sure_of_someMayFail rest later never.2, Bool.and_true]
      have inside := Matcher.sure_of_mayFail matcher within
      have first := never.1
      cases notAhead <;> cases required <;> cases repeated <;> simp_all [Token.Insists]

theorem Pattern.sure_of_allMayFail : ∀ ps : List Pattern, (∀ t ∈ Pattern.allTokens ps, ¬ t.Insists) →
    Pattern.allMayFail ps = false → Pattern.someSure ps = true
  | [], _, never => nomatch never
  | ⟨tokens, _, _⟩ :: rest, free, never => by
      rw [Pattern.allTokens, List.forall_mem_append] at free
      rw [Pattern.allMayFail, Bool.and_eq_false_iff] at never
      rw [Pattern.someSure, Bool.or_eq_true]
      exact never.imp (Token.sure_of_someMayFail tokens free.1) (Pattern.sure_of_allMayFail rest free.2)

end

/-! ## The annotation -/

mutual

/-- Every pattern inside a matcher says by its tokens whether it can fail. -/
def Matcher.Marked : Matcher → Prop
  | .capture patterns _ => Pattern.Marked patterns
  | .group patterns => Pattern.Marked patterns
  | _ => True

/-- Every pattern inside tokens says by its tokens whether it can fail. -/
def Token.Marked : List Token → Prop
  | [] => True
  | ⟨matcher, _, _, _, _, _, _⟩ :: rest => matcher.Marked ∧ Token.Marked rest

/-- Patterns and those inside them say by their tokens whether they can fail. -/
def Pattern.Marked : List Pattern → Prop
  | [] => True
  | ⟨tokens, canFail, _⟩ :: rest =>
    canFail = Token.someMayFail tokens ∧ Token.Marked tokens ∧ Pattern.Marked rest

end

mutual

theorem Matcher.mayFail_markFailing : ∀ m : Matcher, m.markFailing.mayFail = m.mayFail
  | .capture patterns _ => Pattern.allMayFail_markFailing patterns
  | .group patterns => Pattern.allMayFail_markFailing patterns
  | .ref _ _ => rfl
  | .literal _ _ => rfl
  | .charClass _ _ => rfl
  | .any _ => rfl

theorem Token.someMayFail_markFailing : ∀ ts : List Token,
    Token.someMayFail (Token.markFailing ts) = Token.someMayFail ts
  | [] => rfl
  | ⟨matcher, _, _, _, _, _, _⟩ :: rest => by
      rw [Token.markFailing, Token.someMayFail, Token.someMayFail, Matcher.mayFail_markFailing matcher,
        Token.someMayFail_markFailing rest]

theorem Pattern.allMayFail_markFailing : ∀ ps : List Pattern,
    Pattern.allMayFail (Pattern.markFailing ps) = Pattern.allMayFail ps
  | [] => rfl
  | ⟨tokens, _, _⟩ :: rest => by
      rw [Pattern.markFailing, Pattern.allMayFail, Pattern.allMayFail, Token.someMayFail_markFailing tokens,
        Pattern.allMayFail_markFailing rest]

end

mutual

theorem Matcher.markFailing_marked : ∀ m : Matcher, m.markFailing.Marked
  | .capture patterns _ => Pattern.markFailing_marked patterns
  | .group patterns => Pattern.markFailing_marked patterns
  | .ref _ _ => trivial
  | .literal _ _ => trivial
  | .charClass _ _ => trivial
  | .any _ => trivial

theorem Token.markFailing_marked : ∀ ts : List Token, Token.Marked (Token.markFailing ts)
  | [] => trivial
  | ⟨matcher, _, _, _, _, _, _⟩ :: rest => ⟨matcher.markFailing_marked, Token.markFailing_marked rest⟩

theorem Pattern.markFailing_marked : ∀ ps : List Pattern, Pattern.Marked (Pattern.markFailing ps)
  | [] => trivial
  | ⟨tokens, _, _⟩ :: rest =>
      ⟨(Token.someMayFail_markFailing tokens).symm, Token.markFailing_marked tokens,
        Pattern.markFailing_marked rest⟩

end

/-- In an accepted grammar every pattern says by its tokens whether it can fail. -/
theorem Grammar.annotate?_marked {g : Grammar} {callbacks : List String} {a : AnnotatedGrammar}
    (accepted : g.annotate? callbacks = .ok a) :
    ∀ s ∈ a.grammar.rulesets, ∀ r ∈ s.rules, Pattern.Marked r.patterns := by
  obtain ⟨_, _, interned, _, -, -, -, -, -, grammar, -⟩ := annotate?_stages accepted
  rw [grammar]
  intro s hs r hr
  obtain ⟨s', -, rfl⟩ := List.mem_map.1 hs
  obtain ⟨r', -, rfl⟩ := List.mem_map.1 hr
  exact Pattern.markFailing_marked r'.patterns

/-- What the annotation of a pattern says: a sure one is found unable to fail, and one that is found
so is sure or holds a required token that is repeated. -/
theorem Pattern.Marked.canFail_eq_false {x : Pattern} {rest : List Pattern} (marked : Pattern.Marked (x :: rest)) :
    (x.sure = true → x.canFail = false) ∧
      (x.canFail = false → x.sure = true ∨ ∃ t ∈ Pattern.allTokens [x], t.Insists) := by
  obtain ⟨tokens, canFail, id⟩ := x
  obtain ⟨rfl, -, -⟩ := marked
  refine ⟨Token.someMayFail_of_sure tokens, fun never => ?_⟩
  by_cases some_ : ∃ t ∈ Pattern.allTokens [⟨tokens, Token.someMayFail tokens, id⟩], t.Insists
  · exact Or.inr some_
  · refine Or.inl (Token.sure_of_someMayFail tokens (fun t member insists => some_ ⟨t, ?_, insists⟩) never)
    rw [Pattern.allTokens]
    exact List.mem_append_left _ member

end PegFlow
