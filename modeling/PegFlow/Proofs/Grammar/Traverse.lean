/-
# PegFlow.Proofs.Grammar.Traverse -- what a change of all matchers leaves behind

`Pattern.Every q` says that every matcher without patterns satisfies `q`, which is to say that those
of all tokens do (`Pattern.every_iff_token`). A traversal that
replaces these matchers by ones that satisfy `q` gives a grammar in which all do
(`Grammar.mapLeavesM_every`), whatever monad it runs in, as long as what is said of a
computation is kept from one part to the next (`Gives`). What `q` says may depend on
something that only grows while the traversal runs.
-/
import PegFlow.Grammar.Traverse

namespace PegFlow

set_option autoImplicit false
set_option linter.unusedSectionVars false

mutual

/-- Every matcher without patterns inside is so. -/
def Matcher.Every (q : Matcher → Prop) : Matcher → Prop
  | .capture patterns _ => Pattern.Every q patterns
  | .group patterns => Pattern.Every q patterns
  | .ref name target => q (.ref name target)
  | .literal text terminal => q (.literal text terminal)
  | .charClass spec terminal => q (.charClass spec terminal)
  | .any terminal => q (.any terminal)

/-- Every matcher without patterns inside tokens is so. -/
def Token.Every (q : Matcher → Prop) : List Token → Prop
  | [] => True
  | ⟨matcher, _, _, _, _, _, _⟩ :: rest => matcher.Every q ∧ Token.Every q rest

/-- Every matcher without patterns inside patterns is so. -/
def Pattern.Every (q : Matcher → Prop) : List Pattern → Prop
  | [] => True
  | ⟨tokens, _, _⟩ :: rest => Token.Every q tokens ∧ Pattern.Every q rest

end

/-- Every matcher without patterns in the grammar is so. -/
def Grammar.Every (q : Matcher → Prop) (g : Grammar) : Prop :=
  ∀ s ∈ g.rulesets, ∀ r ∈ s.rules, Pattern.Every q r.patterns

mutual

theorem Matcher.Every.imp {q q' : Matcher → Prop} (h : ∀ x, q x → q' x) :
    ∀ x : Matcher, x.Every q → x.Every q'
  | .capture patterns _, every => Pattern.Every.imp h patterns every
  | .group patterns, every => Pattern.Every.imp h patterns every
  | .ref _ _, every => h _ every
  | .literal _ _, every => h _ every
  | .charClass _ _, every => h _ every
  | .any _, every => h _ every

theorem Token.Every.imp {q q' : Matcher → Prop} (h : ∀ x, q x → q' x) :
    ∀ ts : List Token, Token.Every q ts → Token.Every q' ts
  | [], _ => trivial
  | ⟨matcher, _, _, _, _, _, _⟩ :: rest, ⟨here, later⟩ =>
      ⟨Matcher.Every.imp h matcher here, Token.Every.imp h rest later⟩

theorem Pattern.Every.imp {q q' : Matcher → Prop} (h : ∀ x, q x → q' x) :
    ∀ ps : List Pattern, Pattern.Every q ps → Pattern.Every q' ps
  | [], _ => trivial
  | ⟨tokens, _, _⟩ :: rest, ⟨here, later⟩ =>
      ⟨Token.Every.imp h tokens here, Pattern.Every.imp h rest later⟩

end

mutual

theorem Matcher.Every.and {q q' : Matcher → Prop} :
    ∀ x : Matcher, x.Every q → x.Every q' → x.Every fun y => q y ∧ q' y
  | .capture patterns _, every, every' => Pattern.Every.and patterns every every'
  | .group patterns, every, every' => Pattern.Every.and patterns every every'
  | .ref _ _, every, every' => ⟨every, every'⟩
  | .literal _ _, every, every' => ⟨every, every'⟩
  | .charClass _ _, every, every' => ⟨every, every'⟩
  | .any _, every, every' => ⟨every, every'⟩

theorem Token.Every.and {q q' : Matcher → Prop} :
    ∀ ts : List Token, Token.Every q ts → Token.Every q' ts → Token.Every (fun y => q y ∧ q' y) ts
  | [], _, _ => trivial
  | ⟨matcher, _, _, _, _, _, _⟩ :: rest, ⟨here, later⟩, ⟨here', later'⟩ =>
      ⟨Matcher.Every.and matcher here here', Token.Every.and rest later later'⟩

theorem Pattern.Every.and {q q' : Matcher → Prop} :
    ∀ ps : List Pattern, Pattern.Every q ps → Pattern.Every q' ps → Pattern.Every (fun y => q y ∧ q' y) ps
  | [], _, _ => trivial
  | ⟨tokens, _, _⟩ :: rest, ⟨here, later⟩, ⟨here', later'⟩ =>
      ⟨Token.Every.and tokens here here', Pattern.Every.and rest later later'⟩

end

mutual

theorem Matcher.every_leaf : ∀ x : Matcher, x.Every fun y => y.isChoice = false
  | .capture patterns _ => Pattern.every_leaf patterns
  | .group patterns => Pattern.every_leaf patterns
  | .ref _ _ => rfl
  | .literal _ _ => rfl
  | .charClass _ _ => rfl
  | .any _ => rfl

theorem Token.every_leaf : ∀ ts : List Token, Token.Every (fun y => y.isChoice = false) ts
  | [] => trivial
  | ⟨matcher, _, _, _, _, _, _⟩ :: rest => ⟨matcher.every_leaf, Token.every_leaf rest⟩

theorem Pattern.every_leaf : ∀ ps : List Pattern, Pattern.Every (fun y => y.isChoice = false) ps
  | [] => trivial
  | ⟨tokens, _, _⟩ :: rest => ⟨Token.every_leaf tokens, Pattern.every_leaf rest⟩

end

theorem Matcher.every_true (x : Matcher) : x.Every fun _ => True :=
  Matcher.Every.imp (fun _ _ => trivial) x x.every_leaf

theorem Pattern.every_true (ps : List Pattern) : Pattern.Every (fun _ => True) ps :=
  Pattern.Every.imp (fun _ _ => trivial) ps (Pattern.every_leaf ps)

/-! ## Tokens -/

section

variable {q : Matcher → Prop}

mutual

theorem Matcher.every_iff_token : ∀ x : Matcher, x.Every q ↔
    (x.isChoice = false → q x) ∧ ∀ t ∈ Pattern.allTokensIn x, t.matcher.isChoice = false → q t.matcher
  | .capture patterns _ => by
      rw [Matcher.Every, Pattern.allTokensIn, Pattern.every_iff_token patterns, Matcher.isChoice]
      simp
  | .group patterns => by
      rw [Matcher.Every, Pattern.allTokensIn, Pattern.every_iff_token patterns, Matcher.isChoice]
      simp
  | .ref _ _ => by simp [Matcher.Every, Pattern.allTokensIn, Matcher.isChoice]
  | .literal _ _ => by simp [Matcher.Every, Pattern.allTokensIn, Matcher.isChoice]
  | .charClass _ _ => by simp [Matcher.Every, Pattern.allTokensIn, Matcher.isChoice]
  | .any _ => by simp [Matcher.Every, Pattern.allTokensIn, Matcher.isChoice]

theorem Token.every_iff_token : ∀ ts : List Token, Token.Every q ts ↔
    ∀ t ∈ Pattern.allTokensOf ts, t.matcher.isChoice = false → q t.matcher
  | [] => by simp [Token.Every, Pattern.allTokensOf]
  | ⟨matcher, _, _, _, _, _, _⟩ :: rest => by
      rw [Token.Every, Pattern.allTokensOf, List.forall_mem_cons, List.forall_mem_append,
        matcher.every_iff_token, Token.every_iff_token rest, and_assoc]

/-- Every matcher without patterns is so when that of each token that has one is so. -/
theorem Pattern.every_iff_token : ∀ ps : List Pattern, Pattern.Every q ps ↔
    ∀ t ∈ Pattern.allTokens ps, t.matcher.isChoice = false → q t.matcher
  | [] => by simp [Pattern.Every, Pattern.allTokens]
  | ⟨tokens, _, _⟩ :: rest => by
      rw [Pattern.Every, Pattern.allTokens, List.forall_mem_append, Token.every_iff_token tokens,
        Pattern.every_iff_token rest]

end

/-- The tokens of the rules and all tokens inside them. -/
def Grammar.tokens (g : Grammar) : List Token :=
  g.rulesets.flatMap fun s => s.rules.flatMap fun r => Pattern.allTokens r.patterns

theorem Grammar.every_iff_token {g : Grammar} :
    g.Every q ↔ ∀ t ∈ g.tokens, t.matcher.isChoice = false → q t.matcher := by
  simp only [Every, Pattern.every_iff_token, tokens, List.mem_flatMap]
  constructor
  · rintro every t ⟨s, hs, r, hr, inside⟩
    exact every s hs r hr t inside
  · intro every s hs r hr t inside
    exact every t ⟨s, hs, r, hr, inside⟩

end

/-! ## Computations -/

/-- What can be said of the values that computations give, beside something in `W` that
grows meanwhile: it holds of a value that is given outright, and of what follows when it
holds of what went before. -/
structure Gives (m : Type → Type) [Monad m] (W : Type) where
  le : W → W → Prop
  ensures : {α : Type} → W → m α → (W → α → Prop) → Prop
  pure : ∀ {α : Type} {w : W} {a : α} {q : W → α → Prop}, q w a → ensures w (Pure.pure a) q
  bind : ∀ {α β : Type} {w : W} {x : m α} {f : α → m β} {q : W → α → Prop} {r : W → β → Prop},
    ensures w x q → (∀ w' a, le w w' → q w' a → ensures w' (f a) r) → ensures w (x >>= f) r

section

variable {m : Type → Type} [Monad m] {W : Type} (gives : Gives m W)

theorem Gives.mapM [LawfulMonad m] {α β : Type} {f : α → m β} {q : W → β → Prop}
    (mono : ∀ w w' y, gives.le w w' → q w y → q w' y) (w : W) (xs : List α)
    (h : ∀ x ∈ xs, ∀ w, gives.ensures w (f x) q) :
    gives.ensures w (xs.mapM f) fun w ys => ys.length = xs.length ∧ ∀ y ∈ ys, q w y := by
  induction xs generalizing w with
  | nil =>
      rw [List.mapM_nil]
      exact gives.pure ⟨rfl, by simp⟩
  | cons x xs ih =>
      rw [List.mapM_cons]
      refine gives.bind (h x List.mem_cons_self w) fun w' y _ hy => ?_
      refine gives.bind (ih w' fun x hx => h x (List.mem_cons_of_mem _ hx)) ?_
      intro w'' ys grown ⟨length, hys⟩
      exact gives.pure ⟨congrArg (· + 1) length, List.forall_mem_cons.2 ⟨mono _ _ _ grown hy, hys⟩⟩

variable {q : Matcher → Prop} {q' : W → Matcher → Prop} {f : Option SourcePosition → Matcher → m Matcher}
variable (mono : ∀ w w' x, gives.le w w' → q' w x → q' w' x)
variable (leaf : ∀ w pos (x : Matcher), x.isChoice = false → q x →
  gives.ensures w (f pos x) fun w y => y.Every (q' w))

include mono leaf

mutual

theorem Matcher.mapLeavesM_every (w : W) (pos : Option SourcePosition) :
    ∀ x : Matcher, x.Every q → gives.ensures w (x.mapLeavesM f pos) fun w y => y.Every (q' w)
  | .capture patterns _, every =>
      gives.bind (Pattern.mapLeavesM_every w patterns every) fun _ _ _ h => gives.pure h
  | .group patterns, every =>
      gives.bind (Pattern.mapLeavesM_every w patterns every) fun _ _ _ h => gives.pure h
  | .ref name target, every => leaf w pos (.ref name target) rfl every
  | .literal text terminal, every => leaf w pos (.literal text terminal) rfl every
  | .charClass spec terminal, every => leaf w pos (.charClass spec terminal) rfl every
  | .any terminal, every => leaf w pos (.any terminal) rfl every

theorem Token.mapLeavesM_every (w : W) : ∀ ts : List Token, Token.Every q ts →
      gives.ensures w (Token.mapLeavesM f ts) fun w ts => Token.Every (q' w) ts
  | [], _ => gives.pure trivial
  | ⟨matcher, _, _, _, _, _, pos⟩ :: rest, ⟨here, later⟩ =>
      gives.bind (Matcher.mapLeavesM_every w pos matcher here) fun w' x _ h =>
        gives.bind (Token.mapLeavesM_every w' rest later) fun _ _ grown h' =>
          gives.pure ⟨Matcher.Every.imp (fun y => mono _ _ y grown) x h, h'⟩

theorem Pattern.mapLeavesM_every (w : W) : ∀ ps : List Pattern, Pattern.Every q ps →
      gives.ensures w (Pattern.mapLeavesM f ps) fun w ps => Pattern.Every (q' w) ps
  | [], _ => gives.pure trivial
  | ⟨tokens, _, _⟩ :: rest, ⟨here, later⟩ =>
      gives.bind (Token.mapLeavesM_every w tokens here) fun w' ts _ h =>
        gives.bind (Pattern.mapLeavesM_every w' rest later) fun _ _ grown h' =>
          gives.pure ⟨Token.Every.imp (fun y => mono _ _ y grown) ts h, h'⟩

end

end

namespace Grammar

variable {m : Type → Type} [Monad m] [LawfulMonad m] {W : Type} (gives : Gives m W)

/-- As many rulesets as before, and every matcher is so. -/
def Becomes (q : Matcher → Prop) (g g' : Grammar) : Prop :=
  g'.rulesets.length = g.rulesets.length ∧ g'.Every q

/-- What the change of each rule ensures holds of every rule afterwards. -/
theorem mapRulesM_rules {q : W → Rule → Prop} (mono : ∀ w w' r, gives.le w w' → q w r → q w' r)
    {g : Grammar} {f : Ruleset → Rule → m Rule}
    (rule : ∀ s ∈ g.rulesets, ∀ r ∈ s.rules, ∀ w, gives.ensures w (f s r) q) (w : W) :
    gives.ensures w (g.mapRulesM f) fun w g' =>
      g'.rulesets.length = g.rulesets.length ∧ ∀ s ∈ g'.rulesets, ∀ r ∈ s.rules, q w r := by
  have ruleset : ∀ s ∈ g.rulesets, ∀ w, gives.ensures w
      (do return { s with rules := ← s.rules.mapM (f s) } : m Ruleset)
      fun w s => ∀ r ∈ s.rules, q w r := fun s hs w =>
    gives.bind (gives.mapM mono w s.rules (rule s hs)) fun _ _ _ ⟨_, every⟩ => gives.pure every
  exact gives.bind (gives.mapM (fun w w' s grown every r hr => mono w w' r grown (every r hr)) w _ ruleset)
    fun _ _ _ ⟨length, every⟩ => gives.pure ⟨length, every⟩

theorem mapRulesM_every {q' : W → Matcher → Prop} (mono : ∀ w w' x, gives.le w w' → q' w x → q' w' x)
    {g : Grammar} {f : Ruleset → Rule → m Rule}
    (rule : ∀ s ∈ g.rulesets, ∀ r ∈ s.rules, ∀ w,
      gives.ensures w (f s r) fun w r => Pattern.Every (q' w) r.patterns) (w : W) :
    gives.ensures w (g.mapRulesM f) fun w g' => g.Becomes (q' w) g' :=
  mapRulesM_rules gives
    (fun w w' r grown => Pattern.Every.imp (fun y => mono w w' y grown) r.patterns) rule w

theorem mapLeavesM_every {q : Matcher → Prop} {q' : W → Matcher → Prop}
    (mono : ∀ w w' x, gives.le w w' → q' w x → q' w' x) {g : Grammar}
    {f : Option SourcePosition → Matcher → m Matcher}
    (leaf : ∀ w pos (x : Matcher), x.isChoice = false → q x →
      gives.ensures w (f pos x) fun w y => y.Every (q' w)) (every : g.Every q) (w : W) :
    gives.ensures w (g.mapLeavesM f) fun w g' => g.Becomes (q' w) g' := by
  refine mapRulesM_every gives mono (fun s hs r hr w => ?_) w
  exact gives.bind (Pattern.mapLeavesM_every gives mono leaf w r.patterns (every s hs r hr))
    fun _ _ _ h => gives.pure h

end Grammar

end PegFlow
