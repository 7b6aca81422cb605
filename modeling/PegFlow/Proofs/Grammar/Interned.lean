/-
# PegFlow.Proofs.Grammar.Interned -- the terminals of a grammar

The table of an accepted grammar holds the forms in which its terminals are written, and each
token has the place of its form (`Grammar.terminals_held`). So the table holds each terminal that
some matcher of the grammar describes, each once, and no others (`Grammar.mem_terminals_iff`,
`Grammar.terminals_nodup`). What holds of every matcher of a grammar, annotations apart, holds of
those of the annotated grammar (`Grammar.every_of_bare`).
-/
import PegFlow.Proofs.Grammar.Annotations

namespace PegFlow

set_option autoImplicit false
set_option linter.unusedSectionVars false

/-! ## What does not look at annotations -/

section

variable (q : Matcher → Prop) (ν : NodeLabels)

mutual

theorem Matcher.every_relabel : ∀ x : Matcher, (x.relabel ν).Every q ↔ x.Every fun y => q (y.relabel ν)
  | .capture patterns _ => Pattern.every_relabel patterns
  | .group patterns => Pattern.every_relabel patterns
  | .ref _ _ => Iff.rfl
  | .literal _ _ => Iff.rfl
  | .charClass _ _ => Iff.rfl
  | .any _ => Iff.rfl

theorem Token.every_relabel : ∀ ts : List Token,
    Token.Every q (Token.relabel ν ts) ↔ Token.Every (fun y => q (y.relabel ν)) ts
  | [] => Iff.rfl
  | ⟨matcher, _, _, _, _, _, _⟩ :: rest => and_congr matcher.every_relabel (Token.every_relabel rest)

theorem Pattern.every_relabel : ∀ ps : List Pattern,
    Pattern.Every q (Pattern.relabel ν ps) ↔ Pattern.Every (fun y => q (y.relabel ν)) ps
  | [] => Iff.rfl
  | ⟨tokens, _, _⟩ :: rest => and_congr (Token.every_relabel tokens) (Pattern.every_relabel rest)

end

end

/-- What is said of a matcher without patterns does not depend on its annotation. -/
def Matcher.Blind (q : Matcher → Prop) : Prop := ∀ (ν : NodeLabels) (y : Matcher), q (y.relabel ν) ↔ q y

namespace Grammar

variable {q : Matcher → Prop} {g g' : Grammar}

theorem Every.imp {q' : Matcher → Prop} (every : g.Every q) (h : ∀ x, q x → q' x) : g.Every q' :=
  fun s hs r hr => Pattern.Every.imp h r.patterns (every s hs r hr)

theorem every_relabel {ν : Labels} (blind : ∀ y : Matcher, q (y.relabel ν.toNodeLabels) ↔ q y) (g : Grammar) :
    (g.relabel ν).Every q ↔ g.Every q := by
  have rule : ∀ r : Rule, Pattern.Every q (r.relabel ν).patterns ↔ Pattern.Every q r.patterns := by
    intro r
    rw [Rule.relabel, Pattern.every_relabel]
    have same : (fun y : Matcher => q (y.relabel ν.toNodeLabels)) = q := funext fun y => propext (blind y)
    rw [same]
  simp only [Every, relabel, Ruleset.relabel, List.forall_mem_map, rule]

/-- What holds of the matchers of a grammar holds of those of one that differs in annotations. -/
theorem every_of_bare (blind : Matcher.Blind q) (same : g.bare = g'.bare) : g.Every q ↔ g'.Every q :=
  iff_of_eq (eq_of_bare (fun g => propext (every_relabel (blind Labels.blank.toNodeLabels) g)) same)

end Grammar

/-! ## Terminals -/

/-- The matcher is written for the terminal. -/
def Matcher.Describes (t : Terminal) : Matcher → Prop
  | .literal text _ => t = .literal text
  | .charClass spec _ => Terminal.ofClass? spec = .ok t
  | .any _ => t = .any
  | _ => False

theorem Matcher.Describes.blind (t : Terminal) : Matcher.Blind fun x => ¬ x.Describes t := by
  intro ν y
  cases y <;> exact Iff.rfl

theorem Matcher.leaf_of_form {x : Matcher} {f : Terminal.Form} (written : x.form? = some f) :
    x.isChoice = false := by
  cases x with
  | capture | group => cases written
  | ref | literal | charClass | any => rfl

theorem Matcher.form?_blind (f : Terminal.Form) : Matcher.Blind fun x => x.form? ≠ some f := by
  intro ν y
  cases y <;> exact Iff.rfl

/-- A matcher is written for the terminal of its form. -/
theorem Matcher.describes_of_form {x : Matcher} {f : Terminal.Form} {t : Terminal} (written : x.form? = some f)
    (own : f.terminal? = .ok t) : x.Describes t := by
  cases x with
  | literal text old =>
      cases written
      cases own
      rfl
  | charClass spec old =>
      cases written
      exact own
  | any old =>
      cases written
      cases own
      rfl
  | ref | capture | group => cases written

namespace Grammar

variable {g : Grammar} {callbacks : List String} {a : AnnotatedGrammar}

/-- The table of an accepted grammar holds the forms that are written in it, and each of its
terminals has the place of its form. -/
theorem terminals_held (accepted : g.annotate? callbacks = .ok a) : ∃ table forms, TerminalTable.Holds table forms ∧
    a.terminals = table.terminals ∧ a.grammar.Every (Matcher.Filed forms) ∧
    ∀ f ∈ forms, ∃ t ∈ a.grammar.tokens, t.matcher.form? = some f := by
  obtain ⟨resolved, laidOut, interned, table, -, isResolved, isLaidOut, isInterned, terminals, grammar, -⟩ :=
    annotate?_stages accepted
  have toResolved := resolve?_becomes isResolved
  have resolved' := Grammar.every_iff_token.1 (layOut?_becomes toResolved.2 isLaidOut).2
  have every : laidOut.Every fun x => x.Resolved _ ∧
      ∀ f, x.form? = some f → ∃ t ∈ laidOut.tokens, t.matcher.form? = some f :=
    Grammar.every_iff_token.2 fun t inside leaf => ⟨resolved' t inside leaf, fun f written => ⟨t, inside, written⟩⟩
  obtain ⟨forms, holds, written, -, filed⟩ := intern?_filed every isInterned
  refine ⟨table, forms, holds, terminals, ?_, ?_⟩
  · rw [grammar]
    exact (markFailing_becomes (filed.imp fun x own => own.2)).2
  · intro f member
    have bare : laidOut.bare = a.grammar.bare := by
      rw [grammar]
      exact (marked_bare isInterned).symm
    by_contra none
    obtain ⟨t, inside, own⟩ := written f member
    have other : a.grammar.Every fun x => x.form? ≠ some f :=
      Grammar.every_iff_token.2 fun t inside _ own => none ⟨t, inside, own⟩
    exact Grammar.every_iff_token.1 ((every_of_bare (Matcher.form?_blind f) bare).2 other) t inside
      (Matcher.leaf_of_form own) own

/-- Each terminal is in the table once. -/
theorem terminals_nodup (accepted : g.annotate? callbacks = .ok a) : a.terminals.Nodup := by
  obtain ⟨table, forms, holds, terminals, -⟩ := terminals_held accepted
  rw [terminals]
  exact holds.nodup

/-- The terminals in the table are those that matchers of the grammar are written for. -/
theorem mem_terminals_iff (accepted : g.annotate? callbacks = .ok a) {t : Terminal} :
    t ∈ a.terminals ↔ ¬ g.Every fun x => ¬ x.Describes t := by
  have same := annotate?_unseen accepted
  constructor
  · intro member none
    obtain ⟨table, forms, holds, terminals, -, written⟩ := terminals_held accepted
    rw [terminals] at member
    obtain ⟨f, among, own⟩ := holds.exists_form member
    obtain ⟨token, inside, is⟩ := written f among
    have none' := every_iff_token.1 ((every_of_bare (Matcher.Describes.blind t) same).2 none)
    exact none' token inside (Matcher.leaf_of_form is) (Matcher.describes_of_form is own)
  · intro some
    by_contra absent
    refine some ((every_of_bare (Matcher.Describes.blind t) same).1 ?_)
    refine (annotate?_linked accepted).every.imp fun x linked describes => absent ?_
    cases x with
    | literal text old =>
        obtain ⟨id, -, found⟩ := linked
        exact describes ▸ List.mem_of_getElem? found
    | any old =>
        obtain ⟨id, -, found⟩ := linked
        exact describes ▸ List.mem_of_getElem? found
    | charClass spec old =>
        obtain ⟨id, t', -, own, found⟩ := linked
        cases own.symm.trans describes
        exact List.mem_of_getElem? found
    | ref | capture | group => exact describes.elim

end Grammar

end PegFlow
