/-
# PegFlow.Proofs.Grammar.Arities -- alternatives must record the same captures

The slots of a grammar can be laid out exactly when all its choices are even, and then they are
numbered in order; else it is refused because of its captures (`Grammar.layOut?_laysOut`). The
stages after it refuse no grammar for that reason (`Grammar.intern?_unmatched`,
`Grammar.checkTemplates_unmatched`).
-/
import PegFlow.Proofs.Grammar.Acceptable
import PegFlow.Proofs.Grammar.Sites

namespace PegFlow

set_option autoImplicit false

/-! ## Laying out -/

/-- Refused for captures that differ between alternatives. -/
def GrammarError.IsMismatch (e : GrammarError) : Prop :=
  ∃ ruleset expected found pos, e = .captureMismatch ruleset expected found pos

/-- The result is made, and is so, if the condition holds; else it is refused for its captures. -/
def LaysOut {α : Type} (x : Except GrammarError α) (even : Prop) (q : α → Prop) : Prop :=
  (even ∧ ∃ a, x = .ok a ∧ q a) ∨ (¬ even ∧ ∃ e, x = .error e ∧ e.IsMismatch)

namespace LaysOut

variable {α β : Type} {x : Except GrammarError α} {even : Prop} {q : α → Prop} {r : β → Prop}

theorem pure {a : α} (h : q a) : LaysOut (.ok a) True q := .inl ⟨trivial, a, rfl, h⟩

theorem congr {even' : Prop} (h : LaysOut x even q) (same : even ↔ even') : LaysOut x even' q := by
  rwa [← propext same]

theorem bind {f : α → Except GrammarError β} (h : LaysOut x even q) (even' : Prop)
    (next : ∀ a, q a → LaysOut (f a) even' r) : LaysOut (x >>= f) (even ∧ even') r := by
  obtain ⟨holds, a, rfl, given⟩ | ⟨fails, e, rfl, mismatch⟩ := h
  · obtain ⟨holds', b, eq, given'⟩ | ⟨fails', e, eq, mismatch⟩ := next a given
    · exact .inl ⟨⟨holds, holds'⟩, b, eq, given'⟩
    · exact .inr ⟨fun both => fails' both.2, e, eq, mismatch⟩
  · exact .inr ⟨fun both => fails both.1, e, rfl, mismatch⟩

/-- A last step that cannot be refused. -/
theorem last {f : α → Except GrammarError β} (h : LaysOut x even q)
    (next : ∀ a, q a → LaysOut (f a) True r) : LaysOut (x >>= f) even r :=
  (h.bind True next).congr (iff_of_eq (and_true even))

theorem mapM (xs : List α) {f : α → Except GrammarError β} {even : α → Prop}
    (each : ∀ y ∈ xs, LaysOut (f y) (even y) r) :
    LaysOut (xs.mapM f) (∀ y ∈ xs, even y) fun ys => ∀ y ∈ ys, r y := by
  induction xs with
  | nil =>
      rw [List.mapM_nil]
      exact (pure (q := fun ys => ∀ y ∈ ys, r y) (by simp)).congr (by simp)
  | cons y rest ih =>
      rw [List.mapM_cons]
      have whole := (each y List.mem_cons_self).bind _ fun b here =>
        (ih fun z hz => each z (List.mem_cons_of_mem _ hz)).last (r := fun ys => ∀ z ∈ ys, r z)
          fun bs later => pure (List.forall_mem_cons.2 ⟨here, later⟩)
      exact whole.congr List.forall_mem_cons.symm

end LaysOut

theorem Pattern.checkLayout_laysOut (ruleset : String) (pos : Option SourcePosition)
    (expected : Option (List Bool)) (layout : List Bool) :
    LaysOut (Pattern.checkLayout ruleset pos expected layout) (layout = expected.getD layout)
      fun _ => True := by
  cases expected with
  | none => exact .inl ⟨rfl, (), rfl, trivial⟩
  | some first =>
      rw [Pattern.checkLayout]
      split
      · exact .inl ⟨Eq.symm ‹_›, (), rfl, trivial⟩
      · exact .inr ⟨fun same => absurd (Eq.symm same) ‹_›, _, rfl, _, _, _, _, rfl⟩

mutual

theorem Matcher.layOut_laysOut (ruleset : String) (next : Nat) (repeated : Bool)
    (pos : Option SourcePosition) : ∀ x : Matcher,
      LaysOut (x.layOut ruleset next repeated pos) (x.Even repeated) fun y =>
        y.2 = x.arities repeated ∧ y.1.arities repeated = y.2 ∧ y.1.Numbered next
  | .capture patterns _ => by
      refine ((Pattern.layOut_laysOut ruleset (next + 1) repeated pos none patterns).last
        fun ys ⟨layout, arities, numbered⟩ => ?_).congr Matcher.even_capture.symm
      exact .pure ⟨congrArg (repeated :: ·) layout, congrArg (repeated :: ·) (arities.trans layout.symm),
        rfl, numbered⟩
  | .group patterns => by
      refine ((Pattern.layOut_laysOut ruleset next repeated pos none patterns).last
        fun ys ⟨layout, arities, numbered⟩ => ?_).congr Matcher.even_group.symm
      exact .pure ⟨layout, arities.trans layout.symm, numbered⟩
  | .ref _ _ => .congr (.pure ⟨rfl, rfl, trivial⟩) (by simp [Matcher.Even, Matcher.choices])
  | .literal _ _ => .congr (.pure ⟨rfl, rfl, trivial⟩) (by simp [Matcher.Even, Matcher.choices])
  | .charClass _ _ => .congr (.pure ⟨rfl, rfl, trivial⟩) (by simp [Matcher.Even, Matcher.choices])
  | .any _ => .congr (.pure ⟨rfl, rfl, trivial⟩) (by simp [Matcher.Even, Matcher.choices])

theorem Token.layOut_laysOut (ruleset : String) (next : Nat) (repeated : Bool)
    (pos : Option SourcePosition) : ∀ ts : List Token,
      LaysOut (Token.layOut ruleset next repeated pos ts) (Token.Even repeated ts) fun ys =>
        ys.2 = Token.arities repeated ts ∧ Token.arities repeated ys.1 = ys.2 ∧ Token.Numbered next ys.1
  | [] => .congr (.pure ⟨rfl, rfl, trivial⟩) (by simp [Token.Even, Token.choices])
  | ⟨matcher, _, again, _, _, _, written⟩ :: rest => by
      refine ((Matcher.layOut_laysOut ruleset next (repeated || again) (written.or pos) matcher).bind _
        fun y ⟨here, arities, numbered⟩ =>
          (Token.layOut_laysOut ruleset (next + y.2.length) repeated pos rest).last
            fun ys ⟨later, arities', numbered'⟩ => ?_).congr Token.even_cons.symm
      refine .pure ⟨?_, ?_, numbered, ?_⟩
      · rw [here, later, Token.arities]
      · rw [Token.arities, arities, arities']
      · rwa [← Matcher.length_arities (repeated || again), arities]

theorem Pattern.layOut_laysOut (ruleset : String) (next : Nat) (repeated : Bool)
    (pos : Option SourcePosition) (expected : Option (List Bool)) : ∀ ps : List Pattern,
      LaysOut (Pattern.layOut ruleset next repeated pos expected ps)
        ((∀ x ∈ ps, Token.arities repeated x.tokens = expected.getD (Pattern.arities repeated ps)) ∧
          Pattern.EvenIn repeated ps)
        fun ys => ys.2 = expected.getD (Pattern.arities repeated ps) ∧
          Pattern.arities repeated ys.1 = Pattern.arities repeated ps ∧ Pattern.Numbered next ys.1
  | [] => .congr (.pure ⟨rfl, rfl, trivial⟩) (by simp [Pattern.EvenIn, Pattern.choicesIn])
  | ⟨tokens, canFail, id⟩ :: rest => by
      have first := Token.layOut_laysOut ruleset next repeated pos tokens
      refine (first.bind (Token.arities repeated tokens = expected.getD (Token.arities repeated tokens) ∧
        (∀ x ∈ rest, Token.arities repeated x.tokens = expected.getD (Token.arities repeated tokens)) ∧
          Pattern.EvenIn repeated rest) fun ts ⟨layout, arities, numbered⟩ => ?_).congr ?_
      · rw [← layout]
        refine (Pattern.checkLayout_laysOut ruleset _ expected ts.2).bind _ fun _ _ => ?_
        refine (Pattern.layOut_laysOut ruleset next repeated pos (some (expected.getD ts.2)) rest).last
          fun ys ⟨_, _, numbered'⟩ => ?_
        exact .pure ⟨congrArg expected.getD layout, arities.trans layout, numbered, numbered'⟩
      · rw [Pattern.evenIn_cons, List.forall_mem_cons, Pattern.arities]
        tauto

end

/-- Some choice in the grammar is uneven. -/
def Grammar.Uneven (g : Grammar) : Prop :=
  ∃ s ∈ g.rulesets, ∃ r ∈ s.rules, ∃ c ∈ r.choices, ¬ c.Even

instance (g : Grammar) : Decidable g.Uneven :=
  inferInstanceAs (Decidable (∃ s ∈ g.rulesets, ∃ r ∈ s.rules, ∃ c ∈ r.choices, ¬ c.Even))

/-- The slots of the rule are in order, and its layout has their arities. -/
def Rule.Numbered (r : Rule) : Prop :=
  r.captures = Pattern.arities false r.patterns ∧ Pattern.Numbered 1 r.patterns

theorem Rule.even_iff {r : Rule} : (∀ c ∈ r.choices, c.Even) ↔
    (⟨false, r.patterns⟩ : Choice).Even ∧ Pattern.EvenIn false r.patterns :=
  List.forall_mem_cons

theorem Grammar.layOut?_laysOut (g : Grammar) :
    LaysOut g.layOut? (¬ g.Uneven) fun g' => ∀ s ∈ g'.rulesets, ∀ r ∈ s.rules, r.Numbered := by
  have rule (s : Ruleset) (r : Rule) : LaysOut
      (do let p ← Pattern.layOut s.name 1 false r.pos none r.patterns
          return { r with patterns := p.1, captures := p.2 })
      (∀ c ∈ r.choices, c.Even) Rule.Numbered := by
    refine ((Pattern.layOut_laysOut s.name 1 false r.pos none r.patterns).last
      fun ys ⟨layout, arities, numbered⟩ => ?_).congr Rule.even_iff.symm
    exact .pure ⟨layout.trans arities.symm, numbered⟩
  have rules (s : Ruleset) := LaysOut.mapM s.rules fun r _ => rule s r
  have ruleset (s : Ruleset) := (rules s).last (r := fun s : Ruleset => ∀ r ∈ s.rules, r.Numbered)
    fun rules numbered => .pure (a := { s with rules }) numbered
  have rulesets := (LaysOut.mapM g.rulesets fun s _ => ruleset s).last
    (r := fun g : Grammar => ∀ s ∈ g.rulesets, ∀ r ∈ s.rules, r.Numbered)
    fun rulesets numbered => .pure (a := { g with rulesets }) numbered
  refine rulesets.congr ?_
  simp only [Grammar.Uneven, not_exists, not_and, not_not]

/-! ## Other reasons to refuse -/

/-- If it is refused, then not for its captures. -/
def Unmatched {α : Type} (x : Except GrammarError α) : Prop := ∀ e, x = .error e → ¬ e.IsMismatch

namespace Unmatched

variable {α β : Type}

theorem ok (a : α) : Unmatched (.ok a : Except GrammarError α) := nofun

theorem error {e : GrammarError} (h : ¬ e.IsMismatch) : Unmatched (.error e : Except GrammarError α) := by
  rintro _ ⟨⟩
  exact h

theorem bind {x : Except GrammarError α} {f : α → Except GrammarError β} (h : Unmatched x)
    (next : ∀ a, x = .ok a → Unmatched (f a)) : Unmatched (x >>= f) := by
  cases x with
  | error e => exact fun _ given => h _ (by cases given; rfl)
  | ok a => exact next a rfl

theorem forM {xs : List α} {f : α → Except GrammarError Unit} (each : ∀ y, Unmatched (f y)) :
    Unmatched (xs.forM f) := by
  induction xs with
  | nil => exact ok ()
  | cons y rest ih => exact (each y).bind fun _ _ => ih

end Unmatched

/-- What holds of the values of computations that have a state and are not refused for captures. -/
def Gives.unmatched (σ : Type) : Gives (StateT σ (Except GrammarError)) Unit where
  le _ _ := True
  ensures _ x q := ∀ before, Unmatched (x before) ∧ ∀ a after, x before = .ok (a, after) → q () a
  pure := by
    rintro α w a q h before
    refine ⟨.ok _, ?_⟩
    rintro _ _ ⟨⟩
    exact h
  bind := by
    intro α β w x f q r hx hf before
    change Unmatched (x before >>= fun p => f p.1 p.2) ∧
      ∀ b after, (x before >>= fun p => f p.1 p.2) = .ok (b, after) → r () b
    obtain ⟨unmatched, given⟩ := hx before
    have next := fun a between (h : x before = .ok (a, between)) => hf () a trivial (given a between h) between
    refine ⟨unmatched.bind fun p h => (next p.1 p.2 h).1, fun b after h => ?_⟩
    obtain ⟨p, first, second⟩ := Except.bind_eq_ok h
    exact (next p.1 p.2 first).2 b after second

theorem Grammar.intern?_unmatched (g : Grammar) : Unmatched g.intern? := by
  have leaf : ∀ (w : Unit) pos (x : Matcher), x.isChoice = false → True →
      (Gives.unmatched TerminalTable).ensures w (internLeaf pos x) fun _ y => y.Every fun _ => True := by
    intro _ pos x leaf _ before
    refine ⟨?_, fun _ _ _ => Matcher.every_true _⟩
    cases x with
    | charClass spec old =>
        simp only [internLeaf]
        split
        · exact .ok _
        · exact .error (by rintro ⟨_, _, _, _, ⟨⟩⟩)
    | ref | literal | any => exact .ok _
    | capture | group => cases leaf
  exact (mapLeavesM_every (Gives.unmatched TerminalTable) (fun _ _ _ _ h => h) leaf
    (fun s _ r _ => Pattern.every_true r.patterns) () .empty).1

namespace Template

variable (c : TemplateContext)

theorem checkSpread_unmatched (inner : Template) (pos : Option SourcePosition) :
    Unmatched (checkSpread inner pos) := by
  unfold checkSpread
  split
  · exact .ok ()
  · split
    · exact .ok ()
    · exact .error (by rintro ⟨_, _, _, _, ⟨⟩⟩)

theorem checkMerge_unmatched (value : Template) (pos : Option SourcePosition) :
    Unmatched (checkMerge value pos) := by
  unfold checkMerge
  split
  · exact .ok ()
  · split
    · exact .ok ()
    · exact .error (by rintro ⟨_, _, _, _, ⟨⟩⟩)

mutual

theorem check_unmatched (part : Bool) (around : Option SourcePosition) : ∀ t : Template,
    Unmatched (check c part around t)
  | ⟨kind, access, pos⟩ => checkKind_unmatched part access (pos.or around) kind

theorem checkKind_unmatched (part : Bool) (access : List Access) (pos : Option SourcePosition) :
    ∀ kind : TemplateKind, Unmatched (checkKind c part access pos kind)
  | .literal value => by
      rw [checkKind, checkAccess]
      split
      · exact .ok ()
      · exact .error (by rintro ⟨_, _, _, _, ⟨⟩⟩)
  | .backRef index _ => by
      unfold checkKind checkSlot
      split
      · split
        · exact .error (by rintro ⟨_, _, _, _, ⟨⟩⟩)
        · exact .ok ()
      · exact .error (by rintro ⟨_, _, _, _, ⟨⟩⟩)
  | .constant name => by
      rw [checkKind]
      split
      · exact .ok ()
      · exact .error (by rintro ⟨_, _, _, _, ⟨⟩⟩)
  | .location what => by
      unfold checkKind checkLocation
      split
      · exact .ok ()
      · exact .error (by rintro ⟨_, _, _, _, ⟨⟩⟩)
  | .spread inner => by
      rw [checkKind]
      split
      · exact .error (by rintro ⟨_, _, _, _, ⟨⟩⟩)
      · split
        · exact .error (by rintro ⟨_, _, _, _, ⟨⟩⟩)
        · exact (checkSpread_unmatched inner pos).bind fun _ _ => check_unmatched false pos inner
  | .object members => checkMembers_unmatched pos members
  | .array items => checkItems_unmatched pos items
  | .call name args => by
      rw [checkKind]
      split
      · exact checkItems_unmatched pos args
      · exact .error (by rintro ⟨_, _, _, _, ⟨⟩⟩)
  | .pivot inner => check_unmatched false pos inner

theorem checkItems_unmatched (pos : Option SourcePosition) : ∀ items : List Template,
    Unmatched (checkItems c pos items)
  | [] => .ok ()
  | t :: rest => (check_unmatched true pos t).bind fun _ _ => checkItems_unmatched pos rest

theorem checkMembers_unmatched (pos : Option SourcePosition) : ∀ members : List Member,
    Unmatched (checkMembers c pos members)
  | [] => .ok ()
  | .pair _ value :: rest =>
      (check_unmatched false pos value).bind fun _ _ => checkMembers_unmatched pos rest
  | .merge value :: rest =>
      (checkMerge_unmatched value pos).bind fun _ _ =>
        (check_unmatched false pos value).bind fun _ _ => checkMembers_unmatched pos rest

end

end Template

namespace Grammar

theorem checkConstants_unmatched (callbacks : List String) (defined : List String)
    (constants : List Constant) : Unmatched (checkConstants callbacks defined constants) := by
  induction constants generalizing defined with
  | nil => exact .ok ()
  | cons c rest ih =>
      rw [checkConstants]
      split
      · exact .error (by rintro ⟨_, _, _, _, ⟨⟩⟩)
      · exact (Template.check_unmatched _ _ _ c.value).bind fun _ _ => ih _

theorem checkRule_unmatched (callbacks constants : List String) (r : Rule) :
    Unmatched (checkRule callbacks constants r) := by
  unfold checkRule
  split
  · exact .ok ()
  · exact Template.check_unmatched _ _ _ _

theorem checkTemplates_unmatched (g : Grammar) (callbacks : List String) :
    Unmatched (g.checkTemplates callbacks) :=
  (checkConstants_unmatched callbacks [] g.constants).bind fun _ _ =>
    .forM fun _ => .forM fun r => checkRule_unmatched callbacks _ r

end Grammar

end PegFlow
