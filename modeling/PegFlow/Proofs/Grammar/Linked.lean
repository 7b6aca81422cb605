/-
# PegFlow.Proofs.Grammar.Linked -- annotations that point at what they name

In a grammar that was accepted, every reference has the place of a ruleset, and every
text, class and any-character matcher has the id of the terminal that it is
(`Grammar.annotate?_linked`). Resolving gives the first, interning keeps it and adds the
second, since the table of terminals only grows (`Grammar.intern?_filed`); the other stages
keep both.
-/
import PegFlow.Grammar.Annotated
import PegFlow.Proofs.Grammar.Names
import PegFlow.Proofs.Grammar.Traverse
import PegFlow.Proofs.Terminal.Interning

namespace PegFlow

set_option autoImplicit false
set_option linter.unusedSectionVars false

/-- A reference has the place of a ruleset. -/
def Matcher.Resolved (rulesets : Nat) : Matcher → Prop
  | .ref _ target => ∃ ruleset, target = some ruleset ∧ ruleset < rulesets
  | _ => True

/-- A reference has the place of the ruleset that it names. -/
def Matcher.Named (names : List String) : Matcher → Prop
  | .ref name target => ∃ ruleset, target = some ruleset ∧ names[ruleset]? = some name
  | _ => True

theorem Matcher.Named.resolved {names : List String} {x : Matcher} (named : x.Named names) :
    x.Resolved names.length := by
  cases x with
  | ref name target =>
      obtain ⟨ruleset, rfl, here⟩ := named
      exact ⟨ruleset, rfl, (List.getElem?_eq_some_iff.1 here).1⟩
  | capture | group | literal | charClass | any => trivial

/-- Its annotation is the place of a ruleset, or the id of the terminal that it is. -/
def Matcher.Linked (terminals : List Terminal) (rulesets : Nat) : Matcher → Prop
  | .ref _ target => ∃ ruleset, target = some ruleset ∧ ruleset < rulesets
  | .literal text terminal => ∃ id, terminal = some id ∧ terminals[id]? = some (.literal text)
  | .charClass spec terminal =>
    ∃ id t, terminal = some id ∧ Terminal.ofClass? spec = .ok t ∧ terminals[id]? = some t
  | .any terminal => ∃ id, terminal = some id ∧ terminals[id]? = some .any
  | _ => True

/-- Every annotation in the grammar points at what it names. -/
structure AnnotatedGrammar.Linked (g : AnnotatedGrammar) : Prop where
  entry : g.entry < g.grammar.rulesets.length
  every : g.grammar.Every (Matcher.Linked g.terminals g.grammar.rulesets.length)

/-! ## References -/

/-- What holds of the values of computations that may be refused. -/
def Gives.except (ε : Type) : Gives (Except ε) Unit where
  le _ _ := True
  ensures _ x q := ∀ a, x = .ok a → q () a
  pure := by
    rintro α w a q h _ ⟨⟩
    exact h
  bind := by
    intro α β w x f q r hx hf b given
    cases x with
    | error e => cases given
    | ok a => exact hf () a trivial (hx a rfl) b given

theorem Grammar.entry?_lt {g : Grammar} {i : Nat} (h : g.entry? = .ok i) : i < g.rulesets.length := by
  have lt := (List.getElem?_eq_some_iff.1 (entry?_eq_ok_iff.1 h).2).1
  rwa [names, List.length_map] at lt

theorem Grammar.resolve?_named {g g' : Grammar} (h : g.indexed.resolve? = .ok g') :
    g.Becomes (Matcher.Named g.names) g' := by
  have leaf : ∀ (w : Unit) pos (x : Matcher), x.isChoice = false → True →
      (Gives.except GrammarError).ensures w (resolveLeaf g.indexed.lookup pos x) fun _ y =>
        y.Every (Matcher.Named g.names) := by
    intro _ pos x leaf _ y given
    cases x with
    | ref name target =>
        simp only [resolveLeaf] at given
        split at given
        · rename_i found
          cases given
          exact ⟨_, rfl, getElem?_of_indexed found⟩
        · cases given
    | literal | charClass | any =>
        cases given
        trivial
    | capture | group => cases leaf
  have becomes := mapLeavesM_every (Gives.except GrammarError) (fun _ _ _ _ h => h) (g := g.indexed) leaf
    (fun s _ r _ => Pattern.every_true r.patterns) ()
  exact becomes g' h

theorem Grammar.resolve?_becomes {g g' : Grammar} (h : g.indexed.resolve? = .ok g') :
    g.Becomes (Matcher.Resolved g.rulesets.length) g' := by
  obtain ⟨length, named⟩ := resolve?_named h
  refine ⟨length, fun s hs r hr => Pattern.Every.imp (fun x named => ?_) r.patterns (named s hs r hr)⟩
  have resolved := named.resolved
  rwa [names, List.length_map] at resolved

/-! ## Terminals -/

/-- How the terminal of a matcher is written, if it is one. -/
def Matcher.form? : Matcher → Option Terminal.Form
  | .literal text _ => some (.literal text)
  | .charClass spec _ => some (.charClass spec)
  | .any _ => some .any
  | _ => none

/-- The id of the terminal of a matcher. -/
def Matcher.terminalId? : Matcher → Option Nat
  | .literal _ terminal => terminal
  | .charClass _ terminal => terminal
  | .any terminal => terminal
  | _ => none

/-- A terminal has the place of its form among `forms` for its id. -/
def Matcher.Filed (forms : List Terminal.Form) (x : Matcher) : Prop :=
  ∀ f, x.form? = some f → ∃ id, x.terminalId? = some id ∧ forms[id]? = some f

theorem Matcher.Filed.mono {forms forms' : List Terminal.Form} (grown : forms <+: forms') {x : Matcher}
    (filed : x.Filed forms) : x.Filed forms' := by
  intro f written
  obtain ⟨id, own, here⟩ := filed f written
  obtain ⟨more, rfl⟩ := grown
  exact ⟨id, own, by rw [List.getElem?_append_left (List.getElem?_eq_some_iff.1 here).1, here]⟩

theorem TerminalTable.Holds.linked {table : TerminalTable} {forms : List Terminal.Form} (holds : table.Holds forms)
    {n : Nat} {x : Matcher} (resolved : x.Resolved n) (filed : x.Filed forms) : x.Linked table.terminals n := by
  cases x with
  | literal text old =>
      obtain ⟨id, own, here⟩ := filed _ rfl
      obtain ⟨t, is, got⟩ := holds.get?_eq here
      cases is
      exact ⟨id, own, got⟩
  | any old =>
      obtain ⟨id, own, here⟩ := filed _ rfl
      obtain ⟨t, is, got⟩ := holds.get?_eq here
      cases is
      exact ⟨id, own, got⟩
  | charClass spec old =>
      obtain ⟨id, own, here⟩ := filed _ rfl
      obtain ⟨t, is, got⟩ := holds.get?_eq here
      exact ⟨id, t, own, is, got⟩
  | ref | capture | group => exact resolved

/-- What holds of the values of computations that put terminals in a table, given the forms that
the table holds, and what all of these forms are. -/
def Gives.table (P : Terminal.Form → Prop) :
    Gives (StateT TerminalTable (Except GrammarError)) (List Terminal.Form) where
  le := (· <+: ·)
  ensures forms x q := (∀ f ∈ forms, P f) → ∀ table, table.Holds forms → ∀ a after, x table = .ok (a, after) →
    ∃ forms', forms <+: forms' ∧ after.Holds forms' ∧ (∀ f ∈ forms', P f) ∧ q forms' a
  pure := by
    rintro α forms a q h all table holds _ _ ⟨⟩
    exact ⟨forms, List.prefix_rfl, holds, all, h⟩
  bind := by
    intro α β forms x f q r hx hf all table holds b last given
    change (x table >>= fun p => f p.1 p.2) = _ at given
    cases first : x table with
    | error e =>
        rw [first] at given
        cases given
    | ok p =>
        obtain ⟨a, after⟩ := p
        rw [first] at given
        obtain ⟨forms', grown, holds', all', kept⟩ := hx all table holds a after first
        obtain ⟨forms'', grown', holds'', all'', kept'⟩ := hf forms' a grown kept all' after holds' b last given
        exact ⟨forms'', grown.trans grown', holds'', all'', kept'⟩

section

variable {n : Nat} {P : Terminal.Form → Prop}

theorem Grammar.internLeaf_filed (forms : List Terminal.Form) (pos : Option SourcePosition) (x : Matcher)
    (leaf : x.isChoice = false) (every : x.Resolved n ∧ ∀ f, x.form? = some f → P f) :
    (Gives.table P).ensures forms (internLeaf pos x) fun forms y =>
      y.Every fun y => y.Resolved n ∧ y.Filed forms := by
  intro all table holds y after given
  have interned : ∀ (f : Terminal.Form) (t : Terminal), x.form? = some f → f.terminal? = .ok t →
      ∃ forms', forms <+: forms' ∧ (table.intern f t).2.Holds forms' ∧ (∀ g ∈ forms', P g) ∧
        forms'[(table.intern f t).1]? = some f := by
    intro f t written own
    obtain ⟨forms', grown, kept, here, added⟩ := holds.intern own
    refine ⟨forms', grown, kept, ?_, here⟩
    intro g member
    rcases added g member with old | rfl
    · exact all g old
    · exact every.2 g written
  cases x with
  | literal text old =>
      cases given
      obtain ⟨forms', grown, kept, all', here⟩ := interned (.literal text) (.literal text) rfl rfl
      refine ⟨forms', grown, kept, all', trivial, ?_⟩
      rintro f ⟨⟩
      exact ⟨_, rfl, here⟩
  | any old =>
      cases given
      obtain ⟨forms', grown, kept, all', here⟩ := interned .any .any rfl rfl
      refine ⟨forms', grown, kept, all', trivial, ?_⟩
      rintro f ⟨⟩
      exact ⟨_, rfl, here⟩
  | charClass spec old =>
      simp only [internLeaf] at given
      cases own : Terminal.ofClass? spec with
      | error r =>
          rw [holds.charClass_of_error own] at given
          cases given
      | ok t =>
          rw [TerminalTable.charClass_of_ok own] at given
          cases given
          obtain ⟨forms', grown, kept, all', here⟩ := interned (.charClass spec) t rfl own
          refine ⟨forms', grown, kept, all', trivial, ?_⟩
          rintro f ⟨⟩
          exact ⟨_, rfl, here⟩
  | ref name target =>
      cases given
      refine ⟨forms, List.prefix_rfl, holds, all, every.1, ?_⟩
      rintro f ⟨⟩
  | capture | group => cases leaf

/-- The table of a grammar holds forms that are written in it, and gives each terminal of the
grammar the place of its form. -/
theorem Grammar.intern?_filed {g g' : Grammar} {table : TerminalTable}
    (every : g.Every fun x => x.Resolved n ∧ ∀ f, x.form? = some f → P f) (h : g.intern? = .ok (g', table)) :
    ∃ forms, table.Holds forms ∧ (∀ f ∈ forms, P f) ∧ g.Becomes (fun x => x.Resolved n ∧ x.Filed forms) g' := by
  have mono : ∀ (forms forms' : List Terminal.Form) (x : Matcher), forms <+: forms' →
      x.Resolved n ∧ x.Filed forms → x.Resolved n ∧ x.Filed forms' :=
    fun _ _ _ grown own => ⟨own.1, own.2.mono grown⟩
  have leaves := mapLeavesM_every (Gives.table P) mono internLeaf_filed every []
  obtain ⟨forms, -, holds, all, becomes⟩ := leaves (List.forall_mem_nil P) _ TerminalTable.holds_empty g' table h
  exact ⟨forms, holds, all, becomes⟩

end

theorem Grammar.intern?_becomes {g g' : Grammar} {table : TerminalTable} {n : Nat}
    (resolved : g.Every (Matcher.Resolved n)) (h : g.intern? = .ok (g', table)) :
    g.Becomes (Matcher.Linked table.terminals n) g' := by
  have every : g.Every fun x => x.Resolved n ∧ ∀ f, x.form? = some f → True :=
    fun s hs r hr => Pattern.Every.imp (fun x own => ⟨own, fun _ _ => trivial⟩) r.patterns (resolved s hs r hr)
  obtain ⟨forms, holds, -, length, becomes⟩ := intern?_filed every h
  refine ⟨length, ?_⟩
  intro s hs r hr
  exact Pattern.Every.imp (fun x own => holds.linked own.1 own.2) r.patterns (becomes s hs r hr)

/-! ## Stages that keep the annotations -/

section

variable {q : Matcher → Prop}

mutual

theorem Matcher.layOut_every (ruleset : String) (next : Nat) (repeated : Bool)
    (pos : Option SourcePosition) : ∀ x : Matcher, x.Every q →
      (Gives.except _).ensures () (x.layOut ruleset next repeated pos) fun _ y => y.1.Every q
  | .capture patterns _, every =>
      (Gives.except _).bind (Pattern.layOut_every ruleset _ _ _ _ patterns every) fun _ _ _ h =>
        (Gives.except _).pure h
  | .group patterns, every =>
      (Gives.except _).bind (Pattern.layOut_every ruleset _ _ _ _ patterns every) fun _ _ _ h =>
        (Gives.except _).pure h
  | .ref _ _, every => (Gives.except _).pure every
  | .literal _ _, every => (Gives.except _).pure every
  | .charClass _ _, every => (Gives.except _).pure every
  | .any _, every => (Gives.except _).pure every

theorem Token.layOut_every (ruleset : String) (next : Nat) (repeated : Bool)
    (pos : Option SourcePosition) : ∀ ts : List Token, Token.Every q ts →
      (Gives.except _).ensures () (Token.layOut ruleset next repeated pos ts) fun _ ts =>
        Token.Every q ts.1
  | [], _ => (Gives.except _).pure trivial
  | ⟨matcher, _, _, _, _, _, _⟩ :: rest, ⟨here, later⟩ =>
      (Gives.except _).bind (Matcher.layOut_every ruleset _ _ _ matcher here) fun _ _ _ h =>
        (Gives.except _).bind (Token.layOut_every ruleset _ _ _ rest later) fun _ _ _ h' =>
          (Gives.except _).pure ⟨h, h'⟩

theorem Pattern.layOut_every (ruleset : String) (next : Nat) (repeated : Bool)
    (pos : Option SourcePosition) (expected : Option (List Bool)) : ∀ ps : List Pattern,
      Pattern.Every q ps →
        (Gives.except _).ensures () (Pattern.layOut ruleset next repeated pos expected ps) fun _ ps =>
          Pattern.Every q ps.1
  | [], _ => (Gives.except _).pure trivial
  | ⟨tokens, _, _⟩ :: rest, ⟨here, later⟩ =>
      (Gives.except _).bind (Token.layOut_every ruleset _ _ _ tokens here) fun _ _ _ h =>
        (Gives.except _).bind (q := fun _ _ => True) (fun _ _ => trivial) fun _ _ _ _ =>
          (Gives.except _).bind (Pattern.layOut_every ruleset _ _ _ _ rest later) fun _ _ _ h' =>
            (Gives.except _).pure ⟨h, h'⟩

end

theorem Grammar.layOut?_becomes {g g' : Grammar} (every : g.Every q) (h : g.layOut? = .ok g') :
    g.Becomes q g' := by
  refine mapRulesM_every (Gives.except GrammarError) (fun _ _ x _ (h : q x) => h)
    (fun s hs r hr _ => ?_) () g' h
  exact (Gives.except _).bind (Pattern.layOut_every _ _ _ _ _ r.patterns (every s hs r hr))
    fun _ _ _ h => (Gives.except _).pure h

mutual

theorem Matcher.markFailing_every : ∀ x : Matcher, x.Every q → x.markFailing.Every q
  | .capture patterns _, every => Pattern.markFailing_every patterns every
  | .group patterns, every => Pattern.markFailing_every patterns every
  | .ref _ _, every => every
  | .literal _ _, every => every
  | .charClass _ _, every => every
  | .any _, every => every

theorem Token.markFailing_every : ∀ ts : List Token, Token.Every q ts →
    Token.Every q (Token.markFailing ts)
  | [], _ => trivial
  | ⟨matcher, _, _, _, _, _, _⟩ :: rest, ⟨here, later⟩ =>
      ⟨matcher.markFailing_every here, Token.markFailing_every rest later⟩

theorem Pattern.markFailing_every : ∀ ps : List Pattern, Pattern.Every q ps →
    Pattern.Every q (Pattern.markFailing ps)
  | [], _ => trivial
  | ⟨tokens, _, _⟩ :: rest, ⟨here, later⟩ =>
      ⟨Token.markFailing_every tokens here, Pattern.markFailing_every rest later⟩

end

theorem Grammar.markFailing_becomes {g : Grammar} (every : g.Every q) : g.Becomes q g.markFailing := by
  refine ⟨by simp [Grammar.markFailing], ?_⟩
  intro s hs r hr
  obtain ⟨s', hs', rfl⟩ := List.mem_map.1 hs
  obtain ⟨r', hr', rfl⟩ := List.mem_map.1 hr
  exact Pattern.markFailing_every _ (every s' hs' r' hr')

end

/-! ## The whole annotation -/

theorem Except.bind_eq_ok {ε α β : Type} {x : Except ε α} {f : α → Except ε β} {b : β}
    (h : x >>= f = .ok b) : ∃ a, x = .ok a ∧ f a = .ok b := by
  cases x with
  | error e => cases h
  | ok a => exact ⟨a, rfl, h⟩

theorem Except.toOption_eq_some_iff {ε α : Type} {x : Except ε α} {a : α} : x.toOption = some a ↔ x = .ok a := by
  cases x <;> simp [Except.toOption]

theorem Except.eq_ok_of_isSome {ε α : Type} {x : Except ε α} (h : x.toOption.isSome = true) :
    ∃ a, x = .ok a := by
  cases x with
  | error e => cases h
  | ok a => exact ⟨a, rfl⟩

/-- The stages of the annotation of a grammar that was accepted. -/
theorem Grammar.annotate?_stages {g : Grammar} {callbacks : List String} {a : AnnotatedGrammar}
    (h : g.annotate? callbacks = .ok a) :
    ∃ resolved laidOut interned table, g.number.entry? = .ok a.entry ∧
      g.number.indexed.resolve? = .ok resolved ∧ resolved.layOut? = .ok laidOut ∧
      laidOut.intern? = .ok (interned, table) ∧ a.terminals = table.terminals ∧
      a.grammar = interned.markFailing ∧ a.grammar.checkTemplates callbacks = .ok () := by
  obtain ⟨entry, foundEntry, h⟩ := Except.bind_eq_ok h
  obtain ⟨resolved, isResolved, h⟩ := Except.bind_eq_ok h
  obtain ⟨-, -, h⟩ := Except.bind_eq_ok h
  obtain ⟨laidOut, isLaidOut, h⟩ := Except.bind_eq_ok h
  obtain ⟨⟨interned, table⟩, isInterned, h⟩ := Except.bind_eq_ok h
  obtain ⟨_, checked, h⟩ := Except.bind_eq_ok h
  cases h
  exact ⟨resolved, laidOut, interned, table, foundEntry, isResolved, isLaidOut, isInterned, rfl, rfl,
    checked⟩

theorem Grammar.annotate?_linked {g : Grammar} {callbacks : List String} {a : AnnotatedGrammar}
    (h : g.annotate? callbacks = .ok a) : a.Linked := by
  obtain ⟨resolved, laidOut, interned, table, entry, isResolved, isLaidOut, isInterned, terminals,
    grammar, -⟩ := annotate?_stages h
  have toResolved := resolve?_becomes isResolved
  have toLaidOut := layOut?_becomes toResolved.2 isLaidOut
  have toInterned := intern?_becomes toLaidOut.2 isInterned
  have toMarked := markFailing_becomes toInterned.2
  have length : a.grammar.rulesets.length = g.number.rulesets.length := by
    rw [grammar, toMarked.1, toInterned.1, toLaidOut.1, toResolved.1]
  refine ⟨length ▸ entry?_lt entry, ?_⟩
  rw [length, terminals, grammar]
  exact toMarked.2

end PegFlow
