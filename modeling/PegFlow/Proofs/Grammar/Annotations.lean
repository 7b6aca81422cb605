/-
# PegFlow.Proofs.Grammar.Annotations -- annotations of the input do not matter

Grammars that differ in annotations only are refused alike or annotated alike, whatever the
annotations say, and an annotated grammar is annotated as it is (`Grammar.annotate?_of_bare`).

No stage looks at an annotation before it is made, so annotating a grammar without annotations
comes to the same (`Grammar.annotate?_relabel`). And a stage changes no other annotations:
labels that do not look at the old annotations of its kind do not tell its result from what it
was given (`Grammar.number_unseen` and the others), so without annotations the annotated grammar
is the given one (`Grammar.annotate?_unseen`).
-/
import PegFlow.Grammar.Build
import PegFlow.Proofs.Grammar.Labels
import PegFlow.Proofs.Grammar.Linked

namespace PegFlow

set_option autoImplicit false
set_option linter.unusedSectionVars false

/-! ## What a stage leaves as it is -/

section

variable {ν : NodeLabels} (unseen : ∀ old new, ν.id new = ν.id old)

include unseen

mutual

theorem Matcher.number_unseen (n : Nat) : ∀ x : Matcher, (x.number n).1.relabel ν = x.relabel ν
  | .capture patterns slot => by
      simp only [Matcher.relabel, Matcher.number, Pattern.number_unseen n patterns]
  | .group patterns => by
      simp only [Matcher.relabel, Matcher.number, Pattern.number_unseen n patterns]
  | .ref _ _ => rfl
  | .literal _ _ => rfl
  | .charClass _ _ => rfl
  | .any _ => rfl

theorem Token.number_unseen (n : Nat) : ∀ ts : List Token,
    Token.relabel ν (Token.numberList n ts).1 = Token.relabel ν ts
  | [] => rfl
  | ⟨matcher, _, _, _, _, id, _⟩ :: rest => by
      simp only [Token.relabel, Token.numberList, matcher.number_unseen, Token.number_unseen _ rest, unseen id n]

theorem Pattern.number_unseen (n : Nat) : ∀ ps : List Pattern,
    Pattern.relabel ν (Pattern.numberList n ps).1 = Pattern.relabel ν ps
  | [] => rfl
  | ⟨tokens, _, id⟩ :: rest => by
      simp only [Pattern.relabel, Pattern.numberList, Token.number_unseen _ tokens,
        Pattern.number_unseen _ rest, unseen id n]

end

end

section

variable {ν : Labels} (unseen : ∀ old new, ν.id new = ν.id old)

include unseen

theorem Rule.number_unseen (n : Nat) (rs : List Rule) :
    (Rule.numberList n rs).1.map (Rule.relabel ν) = rs.map (Rule.relabel ν) := by
  induction rs generalizing n with
  | nil => rfl
  | cons r rest ih =>
      simp only [List.map_cons, Rule.numberList, Rule.relabel, Pattern.number_unseen unseen, ih,
        unseen r.id n]

theorem Ruleset.number_unseen (n : Nat) (ss : List Ruleset) :
    (Ruleset.numberList n ss).1.map (Ruleset.relabel ν) = ss.map (Ruleset.relabel ν) := by
  induction ss generalizing n with
  | nil => rfl
  | cons s rest ih =>
      simp only [List.map_cons, Ruleset.numberList, Ruleset.relabel, Rule.number_unseen unseen, ih,
        unseen s.id n]

theorem Grammar.number_unseen (unseen' : ∀ old new, ν.maxId new = ν.maxId old) (g : Grammar) :
    g.number.relabel ν = g.relabel ν := by
  simp only [Grammar.number, Grammar.relabel, Ruleset.number_unseen unseen]
  rw [unseen' g.maxId]

end

section

variable {m : Type → Type} [Monad m] {W : Type} (gives : Gives m W)

/-- What does not tell the values that are given from what they are made of does not tell the
lists of them. -/
theorem Gives.mapM_map [LawfulMonad m] {α β γ : Type} {f : α → m β} {e : α → γ} {e' : β → γ}
    (xs : List α) (h : ∀ x ∈ xs, ∀ w, gives.ensures w (f x) fun _ y => e' y = e x) (w : W) :
    gives.ensures w (xs.mapM f) fun _ ys => ys.map e' = xs.map e := by
  induction xs generalizing w with
  | nil =>
      rw [List.mapM_nil]
      exact gives.pure rfl
  | cons x rest ih =>
      rw [List.mapM_cons]
      refine gives.bind (h x List.mem_cons_self w) fun w' y _ here => ?_
      refine gives.bind (ih (fun z member => h z (List.mem_cons_of_mem _ member)) w') ?_
      intro _ ys _ later
      refine gives.pure ?_
      rw [List.map_cons, List.map_cons, here, later]

variable {ν : NodeLabels} {f : Option SourcePosition → Matcher → m Matcher}
  (leaf : ∀ w pos (x : Matcher), x.isChoice = false →
    gives.ensures w (f pos x) fun _ y => y.relabel ν = x.relabel ν)

include leaf

mutual

theorem Matcher.mapLeavesM_unseen (w : W) (pos : Option SourcePosition) : ∀ x : Matcher,
    gives.ensures w (x.mapLeavesM f pos) fun _ y => y.relabel ν = x.relabel ν
  | .capture patterns slot =>
      gives.bind (Pattern.mapLeavesM_unseen w patterns) fun _ ps _ h =>
        gives.pure (show Matcher.capture _ _ = .capture _ _ by rw [h])
  | .group patterns =>
      gives.bind (Pattern.mapLeavesM_unseen w patterns) fun _ _ _ h =>
        gives.pure (show Matcher.group _ = .group _ by rw [h])
  | .ref name target => leaf w pos (.ref name target) rfl
  | .literal text terminal => leaf w pos (.literal text terminal) rfl
  | .charClass spec terminal => leaf w pos (.charClass spec terminal) rfl
  | .any terminal => leaf w pos (.any terminal) rfl

theorem Token.mapLeavesM_unseen (w : W) : ∀ ts : List Token,
    gives.ensures w (Token.mapLeavesM f ts) fun _ ts' => Token.relabel ν ts' = Token.relabel ν ts
  | [] => gives.pure rfl
  | ⟨matcher, _, _, _, _, _, pos⟩ :: rest =>
      gives.bind (Matcher.mapLeavesM_unseen w pos matcher) fun w' _ _ h =>
        gives.bind (Token.mapLeavesM_unseen w' rest) fun _ _ _ h' =>
          gives.pure (by rw [Token.relabel, Token.relabel, h, h'])

theorem Pattern.mapLeavesM_unseen (w : W) : ∀ ps : List Pattern,
    gives.ensures w (Pattern.mapLeavesM f ps) fun _ ps' => Pattern.relabel ν ps' = Pattern.relabel ν ps
  | [] => gives.pure rfl
  | ⟨tokens, _, _⟩ :: rest =>
      gives.bind (Token.mapLeavesM_unseen w tokens) fun w' _ _ h =>
        gives.bind (Pattern.mapLeavesM_unseen w' rest) fun _ _ _ h' =>
          gives.pure (by rw [Pattern.relabel, Pattern.relabel, h, h'])

end

end

/-- What holds of the values of computations that may be refused and that keep a state `I`. -/
def Gives.keeping {σ : Type} (ε : Type) (I : σ → Prop) : Gives (StateT σ (Except ε)) Unit where
  le _ _ := True
  ensures _ x q := ∀ before, I before → ∀ a after, x before = .ok (a, after) → I after ∧ q () a
  pure := by
    rintro α w a q h before kept _ _ ⟨⟩
    exact ⟨kept, h⟩
  bind := by
    intro α β w x f q r hx hf before kept b after given
    change (x before >>= fun p => f p.1 p.2) = _ at given
    obtain ⟨⟨a, between⟩, first, second⟩ := Except.bind_eq_ok given
    obtain ⟨kept', holds⟩ := hx before kept a between first
    exact hf () a trivial holds between kept' b after second

section

variable {ν : NodeLabels} (unseen : ∀ old new, ν.slot new = ν.slot old)

include unseen

mutual

theorem Matcher.layOut_unseen (ruleset : String) (next : Nat) (repeated : Bool)
    (pos : Option SourcePosition) : ∀ x : Matcher,
      (Gives.except _).ensures () (x.layOut ruleset next repeated pos) fun _ y =>
        y.1.relabel ν = x.relabel ν
  | .capture patterns slot =>
      (Gives.except _).bind (Pattern.layOut_unseen ruleset _ _ _ _ patterns) fun _ _ _ h =>
        (Gives.except _).pure (show Matcher.capture _ _ = .capture _ _ by rw [h, unseen slot next])
  | .group patterns =>
      (Gives.except _).bind (Pattern.layOut_unseen ruleset _ _ _ _ patterns) fun _ _ _ h =>
        (Gives.except _).pure (show Matcher.group _ = .group _ by rw [h])
  | .ref _ _ => (Gives.except _).pure rfl
  | .literal _ _ => (Gives.except _).pure rfl
  | .charClass _ _ => (Gives.except _).pure rfl
  | .any _ => (Gives.except _).pure rfl

theorem Token.layOut_unseen (ruleset : String) (next : Nat) (repeated : Bool)
    (pos : Option SourcePosition) : ∀ ts : List Token,
      (Gives.except _).ensures () (Token.layOut ruleset next repeated pos ts) fun _ ts' =>
        Token.relabel ν ts'.1 = Token.relabel ν ts
  | [] => (Gives.except _).pure rfl
  | ⟨matcher, _, _, _, _, _, _⟩ :: rest =>
      (Gives.except _).bind (Matcher.layOut_unseen ruleset _ _ _ matcher) fun _ _ _ h =>
        (Gives.except _).bind (Token.layOut_unseen ruleset _ _ _ rest) fun _ _ _ h' =>
          (Gives.except _).pure (by rw [Token.relabel, Token.relabel, h, h'])

theorem Pattern.layOut_unseen (ruleset : String) (next : Nat) (repeated : Bool)
    (pos : Option SourcePosition) (expected : Option (List Bool)) : ∀ ps : List Pattern,
      (Gives.except _).ensures () (Pattern.layOut ruleset next repeated pos expected ps) fun _ ps' =>
        Pattern.relabel ν ps'.1 = Pattern.relabel ν ps
  | [] => (Gives.except _).pure rfl
  | ⟨tokens, _, _⟩ :: rest =>
      (Gives.except _).bind (Token.layOut_unseen ruleset _ _ _ tokens) fun _ _ _ h =>
        (Gives.except _).bind (q := fun _ _ => True) (fun _ _ => trivial) fun _ _ _ _ =>
          (Gives.except _).bind (Pattern.layOut_unseen ruleset _ _ _ _ rest) fun _ _ _ h' =>
            (Gives.except _).pure (by rw [Pattern.relabel, Pattern.relabel, h, h'])

end

end

section

variable {ν : NodeLabels} (unseen : ∀ old new, ν.canFail new = ν.canFail old)

include unseen

mutual

theorem Matcher.markFailing_unseen : ∀ x : Matcher, x.markFailing.relabel ν = x.relabel ν
  | .capture patterns _ => by
      rw [Matcher.markFailing, Matcher.relabel, Matcher.relabel, Pattern.markFailing_unseen patterns]
  | .group patterns => by
      rw [Matcher.markFailing, Matcher.relabel, Matcher.relabel, Pattern.markFailing_unseen patterns]
  | .ref _ _ => rfl
  | .literal _ _ => rfl
  | .charClass _ _ => rfl
  | .any _ => rfl

theorem Token.markFailing_unseen : ∀ ts : List Token,
    Token.relabel ν (Token.markFailing ts) = Token.relabel ν ts
  | [] => rfl
  | ⟨matcher, _, _, _, _, _, _⟩ :: rest => by
      rw [Token.markFailing, Token.relabel, Token.relabel, matcher.markFailing_unseen,
        Token.markFailing_unseen rest]

theorem Pattern.markFailing_unseen : ∀ ps : List Pattern,
    Pattern.relabel ν (Pattern.markFailing ps) = Pattern.relabel ν ps
  | [] => rfl
  | ⟨tokens, canFail, _⟩ :: rest => by
      rw [Pattern.markFailing, Pattern.relabel, Pattern.relabel, Token.markFailing_unseen tokens,
        Pattern.markFailing_unseen rest, unseen canFail]

end

end

namespace Grammar

section

variable {m : Type → Type} [Monad m] [LawfulMonad m] {W : Type} (gives : Gives m W) (ν : Labels)

theorem mapRulesM_unseen {f : Ruleset → Rule → m Rule} {g : Grammar}
    (rule : ∀ s ∈ g.rulesets, ∀ r ∈ s.rules, ∀ w,
      gives.ensures w (f s r) fun _ r' => r'.relabel ν = r.relabel ν) (w : W) :
    gives.ensures w (g.mapRulesM f) fun _ g' => g'.relabel ν = g.relabel ν := by
  have ruleset : ∀ s ∈ g.rulesets, ∀ w, gives.ensures w
      (do return { s with rules := ← s.rules.mapM (f s) } : m Ruleset)
      fun _ s' => s'.relabel ν = s.relabel ν := fun s hs w =>
    gives.bind (gives.mapM_map s.rules (rule s hs) w) fun _ _ _ h =>
      gives.pure (by rw [Ruleset.relabel, Ruleset.relabel, h])
  exact gives.bind (gives.mapM_map g.rulesets ruleset w) fun _ _ _ h =>
    gives.pure (by rw [relabel, relabel, h])

theorem mapLeavesM_unseen {f : Option SourcePosition → Matcher → m Matcher}
    (leaf : ∀ w pos (x : Matcher), x.isChoice = false →
      gives.ensures w (f pos x) fun _ y => y.relabel ν.toNodeLabels = x.relabel ν.toNodeLabels)
    (g : Grammar) (w : W) :
    gives.ensures w (g.mapLeavesM f) fun _ g' => g'.relabel ν = g.relabel ν := by
  refine mapRulesM_unseen gives ν (fun s _ r _ w => ?_) w
  exact gives.bind (Pattern.mapLeavesM_unseen gives leaf w r.patterns) fun _ _ _ h =>
    gives.pure (by rw [Rule.relabel, Rule.relabel, h])

end

variable {ν : Labels} {g g' : Grammar}

theorem resolve?_unseen (unseen : ∀ name old new, ν.target name new = ν.target name old)
    (h : g.resolve? = .ok g') : g'.relabel ν = g.relabel ν := by
  refine mapLeavesM_unseen (Gives.except GrammarError) ν ?_ g () g' h
  intro _ pos x leaf y given
  cases x with
  | ref name target =>
      rw [resolveLeaf] at given
      split at given
      · cases given
        rw [Matcher.relabel, Matcher.relabel, unseen name target]
      · cases given
  | literal | charClass | any =>
      cases given
      rfl
  | capture | group => cases leaf

theorem layOut?_unseen (slot : ∀ old new, ν.slot new = ν.slot old)
    (captures : ∀ old new, ν.captures new = ν.captures old) (h : g.layOut? = .ok g') :
    g'.relabel ν = g.relabel ν := by
  refine mapRulesM_unseen (Gives.except GrammarError) ν (fun s _ r _ w => ?_) () g' h
  exact (Gives.except _).bind (Pattern.layOut_unseen slot s.name 1 false r.pos none r.patterns)
    fun _ p _ h => (Gives.except _).pure (by rw [Rule.relabel, Rule.relabel, h, captures r.captures p.2])

theorem intern?_unseen (literal : ∀ text old new, ν.literal text new = ν.literal text old)
    (charClass : ∀ spec old new, ν.charClass spec new = ν.charClass spec old)
    (any : ∀ old new, ν.any new = ν.any old) {table : TerminalTable} (h : g.intern? = .ok (g', table)) :
    g'.relabel ν = g.relabel ν := by
  refine (mapLeavesM_unseen (Gives.keeping GrammarError fun _ : TerminalTable => True) ν ?_ g () _ trivial
    g' table h).2
  intro _ pos x leaf before _ y after given
  refine ⟨trivial, ?_⟩
  cases x with
  | literal text old =>
      cases given
      rw [Matcher.relabel, Matcher.relabel, literal text old]
  | any old =>
      cases given
      rw [Matcher.relabel, Matcher.relabel, any old]
  | charClass spec old =>
      simp only [internLeaf] at given
      split at given
      · cases given
        rw [Matcher.relabel, Matcher.relabel, charClass spec old]
      · cases given
  | ref =>
      cases given
      rfl
  | capture | group => cases leaf

theorem markFailing_unseen (unseen : ∀ old new, ν.canFail new = ν.canFail old) (g : Grammar) :
    g.markFailing.relabel ν = g.relabel ν := by
  simp only [markFailing, relabel, Ruleset.relabel, List.map_map, Function.comp_def, Rule.relabel,
    Pattern.markFailing_unseen unseen]
  rfl

end Grammar

/-! ## The whole annotation -/

/-- The labels that stand where nothing was annotated. -/
def Labels.blank : Labels where
  id _ := 0
  target _ _ := none
  slot _ := 0
  literal _ _ := none
  charClass _ _ := none
  any _ := none
  canFail _ := true
  captures _ := []
  lookup _ := []
  maxId _ := 0

/-- The labels that change ids and blank the rest. -/
def Labels.onIds (id maxId : Nat → Nat) : Labels := { blank with id, maxId }

/-- The grammar without annotations. -/
def Grammar.bare (g : Grammar) : Grammar := g.relabel .blank

namespace Grammar

/-- To annotate a grammar comes to the same whatever annotations it has. -/
theorem annotate?_relabel (ν : Labels) (g : Grammar) (callbacks : List String) :
    (g.relabel ν).annotate? callbacks = g.annotate? callbacks := by
  have targets (ν : Labels) (entry : Nat) (g : Grammar) :
      (g.relabel ν.keepTargets).checkReachable entry = g.checkReachable entry :=
    checkReachable_relabel (ν := ν.keepTargets) rfl g entry
  have resolve (ν : Labels) (g : Grammar) :
      (g.relabel ν.keepLookup).resolve? = relabel ν.keepLookup.keepTargets <$> g.resolve? :=
    resolve?_relabel (ν := ν.keepLookup) rfl g
  have all (ν : Labels) :
      ν.keepIds.keepLookup.keepTargets.keepSlots.keepTerminals.keepFailing = .keep := rfl
  simp only [annotate?, number_relabel, entry?_relabel, indexed_relabel, resolve, targets, layOut?_relabel,
    intern?_relabel, markFailing_relabel, map_eq_pure_bind, bind_assoc, pure_bind, all, relabel_keep]

variable {g g' : Grammar}

/-- The last two stages together. -/
theorem marked_unseen {ν : Labels} (literal : ∀ text old new, ν.literal text new = ν.literal text old)
    (charClass : ∀ spec old new, ν.charClass spec new = ν.charClass spec old)
    (any : ∀ old new, ν.any new = ν.any old) (canFail : ∀ old new, ν.canFail new = ν.canFail old)
    {table : TerminalTable} (h : g.intern? = .ok (g', table)) : g'.markFailing.relabel ν = g.relabel ν :=
  (markFailing_unseen canFail g').trans (intern?_unseen literal charClass any h)

theorem number_bare (g : Grammar) : g.number.bare = g.bare := number_unseen (fun _ _ => rfl) (fun _ _ => rfl) g

theorem resolve?_bare (h : g.indexed.resolve? = .ok g') : g'.bare = g.bare :=
  resolve?_unseen (g := g.indexed) (fun _ _ _ => rfl) h

theorem layOut?_bare (h : g.layOut? = .ok g') : g'.bare = g.bare :=
  layOut?_unseen (fun _ _ => rfl) (fun _ _ => rfl) h

theorem marked_bare {table : TerminalTable} (h : g.intern? = .ok (g', table)) : g'.markFailing.bare = g.bare :=
  marked_unseen (fun _ _ _ => rfl) (fun _ _ _ => rfl) (fun _ _ => rfl) (fun _ _ => rfl) h

/-- What does not depend on annotations is the same of grammars that differ in annotations. -/
theorem eq_of_bare {α : Type} {F : Grammar → α} (blind : ∀ g : Grammar, F g.bare = F g)
    (same : g.bare = g'.bare) : F g = F g' := by
  rw [← blind g, same, blind g']

theorem names_of_bare (same : g.bare = g'.bare) : g.names = g'.names := eq_of_bare (names_relabel .blank) same

variable {callbacks : List String} {a : AnnotatedGrammar}

/-- No stage after numbering changes an id. -/
theorem annotate?_ids (accepted : g.annotate? callbacks = .ok a) (id maxId : Nat → Nat) :
    a.grammar.relabel (.onIds id maxId) = g.number.relabel (.onIds id maxId) := by
  obtain ⟨resolved, laidOut, interned, table, -, isResolved, isLaidOut, isInterned, -, grammar, -⟩ :=
    annotate?_stages accepted
  calc a.grammar.relabel (.onIds id maxId)
      = interned.markFailing.relabel (.onIds id maxId) := by rw [grammar]
    _ = laidOut.relabel (.onIds id maxId) :=
      marked_unseen (fun _ _ _ => rfl) (fun _ _ _ => rfl) (fun _ _ => rfl) (fun _ _ => rfl) isInterned
    _ = resolved.relabel (.onIds id maxId) := layOut?_unseen (fun _ _ => rfl) (fun _ _ => rfl) isLaidOut
    _ = g.number.indexed.relabel (.onIds id maxId) := resolve?_unseen (fun _ _ _ => rfl) isResolved
    _ = g.number.relabel (.onIds id maxId) := rfl

/-- Without its annotations an annotated grammar is the given one. -/
theorem annotate?_unseen (accepted : g.annotate? callbacks = .ok a) : a.grammar.bare = g.bare := by
  calc a.grammar.bare
      = g.number.bare := annotate?_ids accepted (fun _ => 0) fun _ => 0
    _ = g.bare := number_bare g

theorem annotate?_constants (accepted : g.annotate? callbacks = .ok a) : a.grammar.constants = g.constants :=
  eq_of_bare (F := Grammar.constants) (fun _ => rfl) (annotate?_unseen accepted)

theorem annotate?_names (accepted : g.annotate? callbacks = .ok a) : a.grammar.names = g.names :=
  names_of_bare (annotate?_unseen accepted)

/-- Grammars that differ in annotations only are refused with the same error or annotated
alike, with the same terminals, entry and warnings; an annotated grammar is annotated as it
is. -/
theorem annotate?_of_bare {g g' : Grammar} (same : g.bare = g'.bare) (callbacks : List String) :
    g.annotate? callbacks = g'.annotate? callbacks ∧
      ∀ a, g.annotate? callbacks = .ok a → a.grammar.annotate? callbacks = .ok a := by
  have bare (g : Grammar) : g.bare.annotate? callbacks = g.annotate? callbacks :=
    annotate?_relabel .blank g callbacks
  constructor
  · rw [← bare g, same, bare g']
  · intro a accepted
    rw [← bare a.grammar, annotate?_unseen accepted, bare g, accepted]

/-- Words with commas between them. -/
def words : Grammar :=
  (Grammar.empty.addRuleset "return"
    [.ofPatterns [.ofTokens [.captureRef "word",
        (Token.group [.ofTokens [.literal ",", .captureRef "word"]]).star]]
      (some (.array [.back 1, .spread (.back 2)]))]).addRuleset
    "word" [.ofPatterns [.ofTokens [.charClass "a-z"]] none]

/-- Annotations that point nowhere, or at something else. -/
def misleading : Labels where
  id old := old + 7
  target _ _ := some 9
  slot old := old + 40
  literal _ _ := some 3
  charClass _ _ := none
  any _ := some 12
  canFail _ := false
  captures _ := [true, true, true]
  lookup _ := [("return", 5), ("word", 0)]
  maxId _ := 1

/-- Misleading annotations at every depth of a grammar change nothing, nor does it to annotate it
twice. -/
theorem annotate?_of_bare_misled : ∃ a, (words.relabel misleading).bare = words.bare ∧
    words.annotate? [] = .ok a ∧ (words.relabel misleading).annotate? [] = .ok a ∧
    a.grammar.annotate? [] = .ok a := by
  have same : (words.relabel misleading).bare = words.bare := rfl
  obtain ⟨a, accepted⟩ : ∃ a, words.annotate? [] = .ok a := Except.eq_ok_of_isSome (by decide +kernel)
  have misled := (annotate?_of_bare same []).1.trans accepted
  exact ⟨a, same, accepted, misled, (annotate?_of_bare same []).2 a misled⟩

end Grammar

end PegFlow
