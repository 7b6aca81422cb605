/-
# PegFlow.Proofs.Grammar.Slots -- slots are numbered in the order of the captures

In every rule of an accepted grammar the captures of each pattern are numbered from one, in
the order in which they are written, and the layout of the rule says of each of them whether
it is repeated (`Grammar.annotate?_laid`). Laying out gives the numbers, and the stages after
it keep them.
-/
import PegFlow.Proofs.Grammar.Linked

namespace PegFlow

set_option autoImplicit false
set_option linter.unusedSectionVars false

mutual

/-- The captures inside have the slots from `next` on, which the layout describes. -/
def Matcher.Laid (next : Nat) (repeated : Bool) : Matcher → List Bool → Prop
  | .capture patterns slot, layout =>
    slot = next ∧ ∃ inner, layout = repeated :: inner ∧ Pattern.Laid (next + 1) repeated patterns inner
  | .group patterns, layout => Pattern.Laid next repeated patterns layout
  | .ref _ _, layout => layout = []
  | .literal _ _, layout => layout = []
  | .charClass _ _, layout => layout = []
  | .any _, layout => layout = []

/-- The captures inside the tokens, one after the other, have the slots from `next` on. -/
def Token.Laid (next : Nat) (repeated : Bool) : List Token → List Bool → Prop
  | [], layout => layout = []
  | ⟨matcher, _, again, _, _, _, _⟩ :: rest, layout =>
    ∃ here later, layout = here ++ later ∧ matcher.Laid next (repeated || again) here ∧
      Token.Laid (next + here.length) repeated rest later

/-- The captures inside each of the patterns have the slots from `next` on. -/
def Pattern.Laid (next : Nat) (repeated : Bool) : List Pattern → List Bool → Prop
  | [], _ => True
  | ⟨tokens, _, _⟩ :: rest, layout =>
    Token.Laid next repeated tokens layout ∧ Pattern.Laid next repeated rest layout

end

/-- The slots of a rule are as its layout says. -/
def Rule.Laid (r : Rule) : Prop := Pattern.Laid 1 false r.patterns r.captures

/-! ## Laying out -/

theorem Pattern.checkLayout_eq_ok {ruleset : String} {pos : Option SourcePosition}
    {expected : Option (List Bool)} {layout : List Bool}
    (h : Pattern.checkLayout ruleset pos expected layout = .ok ()) : expected.getD layout = layout := by
  cases expected with
  | none => rfl
  | some first =>
      rw [checkLayout] at h
      split at h
      · assumption
      · cases h

mutual

theorem Matcher.layOut_laid (ruleset : String) (next : Nat) (repeated : Bool)
    (pos : Option SourcePosition) : ∀ x : Matcher,
      (Gives.except _).ensures () (x.layOut ruleset next repeated pos) fun _ y =>
        y.1.Laid next repeated y.2
  | .capture patterns _ =>
      (Gives.except _).bind (Pattern.layOut_laid ruleset _ _ _ none patterns) fun _ _ _ h =>
        (Gives.except _).pure ⟨rfl, _, rfl, h.1⟩
  | .group patterns =>
      (Gives.except _).bind (Pattern.layOut_laid ruleset _ _ _ none patterns) fun _ _ _ h =>
        (Gives.except _).pure h.1
  | .ref _ _ => (Gives.except _).pure rfl
  | .literal _ _ => (Gives.except _).pure rfl
  | .charClass _ _ => (Gives.except _).pure rfl
  | .any _ => (Gives.except _).pure rfl

theorem Token.layOut_laid (ruleset : String) (next : Nat) (repeated : Bool)
    (pos : Option SourcePosition) : ∀ ts : List Token,
      (Gives.except _).ensures () (Token.layOut ruleset next repeated pos ts) fun _ ts =>
        Token.Laid next repeated ts.1 ts.2
  | [] => (Gives.except _).pure rfl
  | ⟨matcher, _, _, _, _, _, _⟩ :: rest =>
      (Gives.except _).bind (Matcher.layOut_laid ruleset _ _ _ matcher) fun _ _ _ h =>
        (Gives.except _).bind (Token.layOut_laid ruleset _ _ _ rest) fun _ _ _ h' =>
          (Gives.except _).pure ⟨_, _, rfl, h, h'⟩

theorem Pattern.layOut_laid (ruleset : String) (next : Nat) (repeated : Bool)
    (pos : Option SourcePosition) (expected : Option (List Bool)) : ∀ ps : List Pattern,
      (Gives.except _).ensures () (Pattern.layOut ruleset next repeated pos expected ps) fun _ ps =>
        Pattern.Laid next repeated ps.1 ps.2 ∧ expected.getD ps.2 = ps.2
  | [] => (Gives.except _).pure ⟨trivial, by cases expected <;> rfl⟩
  | ⟨tokens, _, _⟩ :: rest =>
      (Gives.except _).bind (Token.layOut_laid ruleset _ _ _ tokens) fun _ ts _ h =>
        (Gives.except _).bind (q := fun _ _ => expected.getD ts.2 = ts.2)
          (fun _ checked => Pattern.checkLayout_eq_ok checked) fun _ _ _ agrees =>
            (Gives.except _).bind (Pattern.layOut_laid ruleset _ _ _ _ rest) fun _ ps _ ⟨h', first⟩ => by
              have first : expected.getD ts.2 = ps.2 := first
              refine (Gives.except _).pure ⟨⟨?_, ?_⟩, ?_⟩
              · exact agrees.symm ▸ h
              · exact first.symm ▸ h'
              · rw [agrees, agrees]

end

/-! ## Stages that keep the slots -/

/-- What holds of the values of computations that have a state and may be refused. -/
def Gives.state (σ ε : Type) : Gives (StateT σ (Except ε)) Unit where
  le _ _ := True
  ensures _ x q := ∀ w a w', x w = .ok (a, w') → q () a
  pure := by
    rintro α w a q h _ _ _ ⟨⟩
    exact h
  bind := by
    intro α β _ x f q r hx hf w b w'' given
    change (x w >>= fun p => f p.1 p.2) = _ at given
    cases first : x w with
    | error e =>
        rw [first] at given
        cases given
    | ok p =>
        obtain ⟨a, w'⟩ := p
        rw [first] at given
        exact hf () a trivial (hx w a w' first) w' b w'' given

section

variable {m : Type → Type} [Monad m] {W : Type} (gives : Gives m W)
variable {f : Option SourcePosition → Matcher → m Matcher}
variable (leaf : ∀ w pos (x : Matcher) next repeated, x.isChoice = false →
  gives.ensures w (f pos x) fun _ y => y.Laid next repeated [])

include leaf

mutual

theorem Matcher.mapLeavesM_laid (next : Nat) (repeated : Bool) (w : W) (pos : Option SourcePosition) :
    ∀ (x : Matcher) (layout : List Bool), x.Laid next repeated layout →
      gives.ensures w (x.mapLeavesM f pos) fun _ y => y.Laid next repeated layout
  | .capture patterns _, _, ⟨slot, inner, layout, laid⟩ =>
      gives.bind (Pattern.mapLeavesM_laid _ _ w patterns inner laid) fun _ _ _ h =>
        gives.pure ⟨slot, inner, layout, h⟩
  | .group patterns, layout, laid =>
      gives.bind (Pattern.mapLeavesM_laid _ _ w patterns layout laid) fun _ _ _ h => gives.pure h
  | .ref name target, _, rfl => leaf w pos (.ref name target) next repeated rfl
  | .literal text terminal, _, rfl => leaf w pos (.literal text terminal) next repeated rfl
  | .charClass spec terminal, _, rfl => leaf w pos (.charClass spec terminal) next repeated rfl
  | .any terminal, _, rfl => leaf w pos (.any terminal) next repeated rfl

theorem Token.mapLeavesM_laid (next : Nat) (repeated : Bool) (w : W) : ∀ (ts : List Token)
      (layout : List Bool), Token.Laid next repeated ts layout →
      gives.ensures w (Token.mapLeavesM f ts) fun _ ts => Token.Laid next repeated ts layout
  | [], _, laid => gives.pure laid
  | ⟨matcher, _, _, _, _, _, pos⟩ :: rest, _, ⟨here, later, layout, laid, laid'⟩ =>
      gives.bind (Matcher.mapLeavesM_laid _ _ w pos matcher here laid) fun w' _ _ h =>
        gives.bind (Token.mapLeavesM_laid _ _ w' rest later laid') fun _ _ _ h' =>
          gives.pure ⟨here, later, layout, h, h'⟩

theorem Pattern.mapLeavesM_laid (next : Nat) (repeated : Bool) (w : W) : ∀ (ps : List Pattern)
      (layout : List Bool), Pattern.Laid next repeated ps layout →
      gives.ensures w (Pattern.mapLeavesM f ps) fun _ ps => Pattern.Laid next repeated ps layout
  | [], _, _ => gives.pure trivial
  | ⟨tokens, _, _⟩ :: rest, layout, ⟨laid, laid'⟩ =>
      gives.bind (Token.mapLeavesM_laid _ _ w tokens layout laid) fun w' _ _ h =>
        gives.bind (Pattern.mapLeavesM_laid _ _ w' rest layout laid') fun _ _ _ h' =>
          gives.pure ⟨h, h'⟩

end

end

mutual

theorem Matcher.markFailing_laid (next : Nat) (repeated : Bool) : ∀ (x : Matcher) (layout : List Bool),
    x.Laid next repeated layout → x.markFailing.Laid next repeated layout
  | .capture patterns _, _, ⟨slot, inner, layout, laid⟩ =>
      ⟨slot, inner, layout, Pattern.markFailing_laid _ _ patterns inner laid⟩
  | .group patterns, layout, laid => Pattern.markFailing_laid _ _ patterns layout laid
  | .ref _ _, _, laid => laid
  | .literal _ _, _, laid => laid
  | .charClass _ _, _, laid => laid
  | .any _, _, laid => laid

theorem Token.markFailing_laid (next : Nat) (repeated : Bool) : ∀ (ts : List Token) (layout : List Bool),
    Token.Laid next repeated ts layout → Token.Laid next repeated (Token.markFailing ts) layout
  | [], _, laid => laid
  | ⟨matcher, _, _, _, _, _, _⟩ :: rest, _, ⟨here, later, layout, laid, laid'⟩ =>
      ⟨here, later, layout, matcher.markFailing_laid _ _ here laid,
        Token.markFailing_laid _ _ rest later laid'⟩

theorem Pattern.markFailing_laid (next : Nat) (repeated : Bool) :
    ∀ (ps : List Pattern) (layout : List Bool), Pattern.Laid next repeated ps layout →
      Pattern.Laid next repeated (Pattern.markFailing ps) layout
  | [], _, _ => trivial
  | ⟨tokens, _, _⟩ :: rest, layout, ⟨laid, laid'⟩ =>
      ⟨Token.markFailing_laid _ _ tokens layout laid, Pattern.markFailing_laid _ _ rest layout laid'⟩

end

/-! ## The whole annotation -/

/-- The slots of every rule are as its layout says. -/
def Grammar.Laid (g : Grammar) : Prop := ∀ s ∈ g.rulesets, ∀ r ∈ s.rules, r.Laid

namespace Grammar

theorem layOut?_laid {g g' : Grammar} (h : g.layOut? = .ok g') : g'.Laid := by
  refine (mapRulesM_rules (Gives.except GrammarError) (fun _ _ (r : Rule) _ (h : r.Laid) => h)
    (fun s _ r _ _ => ?_) () g' h).2
  exact (Gives.except _).bind (Pattern.layOut_laid _ _ _ _ _ r.patterns)
    fun _ _ _ laid => (Gives.except _).pure laid.1

theorem internLeaf_laid (w : Unit) (pos : Option SourcePosition) (x : Matcher) (next : Nat)
    (repeated : Bool) (leaf : x.isChoice = false) :
    (Gives.state TerminalTable GrammarError).ensures w (internLeaf pos x) fun _ y =>
      y.Laid next repeated [] := by
  intro table y table' given
  cases x with
  | capture | group => cases leaf
  | ref | literal | any =>
      cases given
      exact rfl
  | charClass spec old =>
      simp only [internLeaf] at given
      split at given
      · cases given
        exact rfl
      · cases given

theorem intern?_laid {g g' : Grammar} {table : TerminalTable} (laid : g.Laid)
    (h : g.intern? = .ok (g', table)) : g'.Laid := by
  have rule : ∀ s ∈ g.rulesets, ∀ r ∈ s.rules, ∀ w,
      (Gives.state TerminalTable GrammarError).ensures w
        (do return { r with patterns := ← Pattern.mapLeavesM internLeaf r.patterns }) fun _ r => r.Laid :=
    fun s hs r hr w =>
      (Gives.state _ _).bind (Pattern.mapLeavesM_laid _ internLeaf_laid 1 false w _ _ (laid s hs r hr))
        fun _ _ _ laid => (Gives.state _ _).pure laid
  exact (mapRulesM_rules (Gives.state TerminalTable GrammarError) (fun _ _ _ _ h => h) rule () _ _ _ h).2

theorem markFailing_laid {g : Grammar} (laid : g.Laid) : g.markFailing.Laid := by
  intro s hs r hr
  obtain ⟨s', hs', rfl⟩ := List.mem_map.1 hs
  obtain ⟨r', hr', rfl⟩ := List.mem_map.1 hr
  exact Pattern.markFailing_laid _ _ _ _ (laid s' hs' r' hr')

/-- In an accepted grammar the slots of every rule are as its layout says. -/
theorem annotate?_laid {g : Grammar} {callbacks : List String} {a : AnnotatedGrammar}
    (accepted : g.annotate? callbacks = .ok a) : a.grammar.Laid := by
  obtain ⟨_, _, _, _, -, -, isLaidOut, isInterned, -, grammar, -⟩ := annotate?_stages accepted
  rw [grammar]
  exact markFailing_laid (intern?_laid (layOut?_laid isLaidOut) isInterned)

end Grammar

end PegFlow
