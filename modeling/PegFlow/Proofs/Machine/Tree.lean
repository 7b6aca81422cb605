/-
# PegFlow.Proofs.Machine.Tree -- each node of a grammar does what it means

By induction on the tree of a grammar: the fragment of a matcher, of tokens and of
patterns does what the node means, when calls do. A sequence of two tokens or more needs
a note to come back to (`Token.does`), a choice does not (`Pattern.does`).
-/
import PegFlow.Proofs.Grammar.Linked
import PegFlow.Proofs.Machine.Fragment
import PegFlow.Proofs.Meaning.Grammar

namespace PegFlow

set_option autoImplicit false
set_option linter.unusedSectionVars false

section

variable {p : Program} {T : String} {n depth : Nat}

theorem Does.modified {f : Fragment} {q : Parse (List Capture)} (required repeated ahead notAhead : Bool)
    (slots : List Nat) (body : Does p T n depth Failed f q) :
    Does p T n depth Failed (f.modified required repeated ahead notAhead slots)
      (q.modified T required repeated ahead notAhead slots) := by
  have counted : Does p T n depth Failed
      (if repeated then f.loop (if required then 1 else 0) else if required then f else f.optional slots)
      (if repeated then q.loop T (if required then 1 else 0)
        else if required then q else q.optional slots) := by
    cases repeated with
    | true => exact body.loop (by split <;> omega)
    | false =>
        cases required with
        | true => exact body
        | false => exact body.optional
  cases ahead with
  | true => exact counted.lookahead
  | false =>
      cases notAhead with
      | true => exact counted.negativeLookahead
      | false => exact counted

/-- A capture is of one plain reference, and then its body is a call, or it is not. -/
theorem Pattern.plain_cases {terminals : List Terminal} {patterns : List Pattern}
    (linked : Pattern.Every (Matcher.Linked terminals n) patterns) :
    (∃ ruleset, ruleset < n ∧ plainTarget? patterns = some ruleset ∧ isPlainRef patterns = true ∧
        Pattern.fragment patterns = Fragment.call ruleset) ∨
      (plainTarget? patterns = none ∧ isPlainRef patterns = false) := by
  unfold plainTarget?
  split
  · rename_i name target id pos canFail patternId
    obtain ⟨⟨⟨ruleset, rfl, lt⟩, -⟩, -⟩ := linked
    exact Or.inl ⟨ruleset, lt, rfl, rfl, rfl⟩
  · rename_i other
    refine Or.inr ⟨rfl, ?_⟩
    unfold isPlainRef
    split
    · rename_i name target required repeated ahead notAhead id pos canFail patternId
      cases required <;> cases repeated <;> cases ahead <;> cases notAhead <;> first | rfl | skip
      exact absurd rfl (other _ _ _ _ _ _)
    · rfl

variable {call : Nat → Parse Value} {terminals : List Terminal}
variable (fits : T.utf8ByteSize ≤ Buffer.maxOffset)
variable (known : ∀ (id : Nat) (t : Terminal), terminals[id]? = some t → p.terminals[id]? = some t)
variable (calls : ∀ ruleset < n, ∀ pass,
  Means p T (Ready T n depth) (Returned T) Failed pass (Fragment.call ruleset) (call ruleset))

include fits known calls

mutual

theorem Matcher.does : ∀ m : Matcher, m.Every (Matcher.Linked terminals n) →
      Does p T n depth Failed m.fragment (m.parse T call)
  | .literal text _, ⟨id, rfl, found⟩ => by
      rw [Matcher.fragment, Matcher.parse]
      exact .terminal (known id _ found)
  | .charClass spec _, ⟨id, t, rfl, compiled, found⟩ => by
      rw [Matcher.fragment, Matcher.parse, compiled]
      exact .terminal (known id t found)
  | .any _, ⟨id, rfl, found⟩ => by
      rw [Matcher.fragment, Matcher.parse]
      exact .terminal (known id _ found)
  | .ref _ _, ⟨ruleset, rfl, lt⟩ => by
      rw [Matcher.fragment, Matcher.parse]
      exact .silent (calls ruleset lt)
  | .group patterns, linked => by
      rw [Matcher.fragment, Matcher.parse]
      exact Pattern.does patterns linked
  | .capture patterns slot, linked => by
      rw [Matcher.fragment, Matcher.parse]
      rcases Pattern.plain_cases linked with ⟨ruleset, lt, target, plain, fragment⟩ | ⟨target, plain⟩
      · rw [target, plain, fragment]
        exact .recorded (calls ruleset lt)
      · rw [target, plain]
        exact .captured fits (Pattern.does patterns linked)

theorem Token.does :
    ∀ ts : List Token, Token.Every (Matcher.Linked terminals n) ts →
      Does p T n depth Dropped (Token.fragment ts) (Token.parse T call ts) ∧
        (ts.length < 2 → Does p T n depth Failed (Token.fragment ts) (Token.parse T call ts))
  | [], _ => by
      rw [Token.fragment, Token.parse]
      exact ⟨Does.pass.loose, fun _ => .pass⟩
  | ⟨matcher, required, repeated, ahead, notAhead, _, _⟩ :: rest, ⟨here, later⟩ => by
      have first := (Matcher.does matcher here).modified required repeated ahead
        notAhead matcher.slots
      have others := Token.does rest later
      rw [Token.fragment, Token.parse]
      refine ⟨first.loose.andThen others.1, fun short => ?_⟩
      cases rest with
      | nil =>
          rw [Token.fragment, Token.parse]
          exact first.andThen_pass
      | cons t ts =>
          simp only [List.length_cons] at short
          omega

theorem Pattern.does :
    ∀ ps : List Pattern, Pattern.Every (Matcher.Linked terminals n) ps →
      Does p T n depth Failed (Pattern.fragment ps) (Pattern.parse T call ps)
  | [], _ => by
      rw [Pattern.fragment, Pattern.parse]
      exact fun _ => .fail
  | ⟨tokens, _, _⟩ :: rest, ⟨here, later⟩ => by
      have tokens_ := Token.does tokens here
      rw [Pattern.fragment, Pattern.parse]
      refine Does.orElse ?_ (Pattern.does rest later)
      by_cases short : tokens.length < 2
      · rw [if_pos short]
        exact tokens_.2 short
      · rw [if_neg short]
        exact tokens_.1.atomically

end

end

end PegFlow
