/-
# PegFlow.Proofs.Meaning.Alternatives -- the alternatives of a ruleset in order

The rules of a ruleset are tried in order, and of each rule its patterns. So a ruleset is one
list of alternatives, each of them a pattern with the rule that gives the output
(`Rule.parseList_eq`). It fails if they all fail, and else gives what the first one gives that
does not fail (`Alternative.parseList_fail`, `Alternative.parseList_pass`).
-/
import PegFlow.Proofs.Meaning.Grammar

namespace PegFlow

set_option autoImplicit false

namespace Outcome

variable {α β : Type}

/-- It is no match. -/
def Fails (o : Outcome α) : Prop := ∃ again, o = .fail again

/-- It is a match up to `stop` with this value. -/
def Passes (o : Outcome α) (stop : Nat) (v : α) : Prop := ∃ again, o = .pass stop v again

theorem noting_fails_iff {o : Outcome α} {before : List (Nat × Nat)} :
    (o.noting before).Fails ↔ o.Fails := by
  cases o <;> simp [Fails]

theorem noting_passes_iff {o : Outcome α} {before : List (Nat × Nat)} {stop : Nat} {v : α} :
    (o.noting before).Passes stop v ↔ o.Passes stop v := by
  cases o <;> simp [Passes]

/-- Of candidates that are tried in order, the first one that does not fail is a match. -/
inductive First {ι : Type} (attempt : ι → Outcome α) : List ι → ι → Nat → α → Prop
  | here {x : ι} {rest : List ι} {stop : Nat} {v : α} (passes : (attempt x).Passes stop v) :
      First attempt (x :: rest) x stop v
  | later {x y : ι} {rest : List ι} {stop : Nat} {v : α} (fails : (attempt y).Fails)
      (first : First attempt rest x stop v) : First attempt (y :: rest) x stop v

namespace First

variable {ι : Type} {attempt : ι → Outcome α} {xs ys : List ι} {x : ι} {stop : Nat} {v : α}

theorem mem (h : First attempt xs x stop v) : x ∈ xs := by
  induction h with
  | here => exact List.mem_cons_self
  | later _ _ ih => exact List.mem_cons_of_mem _ ih

theorem passes (h : First attempt xs x stop v) : (attempt x).Passes stop v := by
  induction h with
  | here passes => exact passes
  | later _ _ ih => exact ih

theorem not_all_fail (h : First attempt xs x stop v) : ¬ ∀ y ∈ xs, (attempt y).Fails := by
  intro all
  obtain ⟨again, fails⟩ := all x h.mem
  obtain ⟨again', passes⟩ := h.passes
  cases fails.symm.trans passes

theorem unique {y : ι} {stop' : Nat} {w : α} (h : First attempt xs x stop v)
    (h' : First attempt xs y stop' w) : x = y ∧ stop = stop' ∧ v = w := by
  induction h with
  | here passes =>
      obtain ⟨again, passes⟩ := passes
      cases h' with
      | here passes' =>
          obtain ⟨again', passes'⟩ := passes'
          cases passes.symm.trans passes'
          exact ⟨rfl, rfl, rfl⟩
      | later fails =>
          obtain ⟨again', fails⟩ := fails
          cases passes.symm.trans fails
  | later fails _ ih =>
      cases h' with
      | here passes =>
          obtain ⟨again, passes⟩ := passes
          obtain ⟨again', fails⟩ := fails
          cases passes.symm.trans fails
      | later _ first => exact ih first

/-- The first one of two lists is in the first list, or all that is in there fails. -/
theorem of_append (h : First attempt (xs ++ ys) x stop v) :
    First attempt xs x stop v ∨ ((∀ y ∈ xs, (attempt y).Fails) ∧ First attempt ys x stop v) := by
  induction xs with
  | nil => exact Or.inr ⟨fun _ member => (nomatch member), h⟩
  | cons y rest ih =>
      cases h with
      | here passes => exact Or.inl (.here passes)
      | later fails first =>
          rcases ih first with inside | ⟨others, behind⟩
          · exact Or.inl (.later fails inside)
          · exact Or.inr ⟨List.forall_mem_cons.2 ⟨fails, others⟩, behind⟩

/-- The same candidate comes first where the candidates before it fail too. -/
theorem transfer {attempt' : ι → Outcome β} {stop' : Nat} {w : β} (h : First attempt xs x stop v)
    (fails : ∀ y ∈ xs, (attempt y).Fails → (attempt' y).Fails) (passes : (attempt' x).Passes stop' w) :
    First attempt' xs x stop' w := by
  induction h with
  | here => exact .here passes
  | later failed _ ih =>
      exact .later (fails _ List.mem_cons_self failed)
        (ih (fun y member => fails y (List.mem_cons_of_mem _ member)) passes)

end First

end Outcome

/-- One way in which a ruleset may match: the tokens of a pattern, and its rule. -/
structure Alternative where
  tokens : List Token
  rule : Rule

/-- The alternatives of a rule. -/
def Rule.alternatives (r : Rule) : List Alternative := r.patterns.map fun x => ⟨x.tokens, r⟩

/-- The alternatives of the ruleset at a place. -/
def Grammar.alternativesAt (g : Grammar) (ruleset : Nat) : List Alternative :=
  (g.rulesAt ruleset).flatMap Rule.alternatives

/-- What comes of a rule whose tokens matched. -/
def Rule.outcome (library : Library) (T : String) (r : Rule) (start stop : Nat)
    (captures : List Capture) : Outcome Value :=
  match r.valueOf library T start stop captures with
  | .ok v => .pass stop v []
  | .error f => .error f

namespace Rule

variable {library : Library} {T : String} {start stop : Nat} {o : Outcome (List Capture)}

/-- A rule fails only where its tokens do. -/
theorem outcome_fails_iff (r : Rule) (f : List Capture → List Capture) :
    (o.either (fun stop captures => r.outcome library T start stop (f captures)) (.fail [])).Fails ↔
      o.Fails := by
  cases o with
  | pass stop captures again =>
      rw [Outcome.either_pass, Outcome.noting_fails_iff, outcome]
      constructor
      · rintro ⟨again', fails⟩
        split at fails <;> cases fails
      · rintro ⟨again', fails⟩
        cases fails
  | fail again => exact ⟨fun _ => ⟨again, rfl⟩, fun _ => ⟨again ++ [], rfl⟩⟩
  | error f => exact ⟨fun ⟨_, fails⟩ => (nomatch fails), fun ⟨_, fails⟩ => (nomatch fails)⟩
  | deep => exact ⟨fun ⟨_, fails⟩ => (nomatch fails), fun ⟨_, fails⟩ => (nomatch fails)⟩

/-- It matches with a value where its tokens match and its template gives this value. -/
theorem outcome_passes_iff (r : Rule) (f : List Capture → List Capture) {v : Value} :
    (o.either (fun stop captures => r.outcome library T start stop (f captures)) (.fail [])).Passes stop v ↔
      ∃ captures, o.Passes stop captures ∧ r.valueOf library T start stop (f captures) = .ok v := by
  cases o with
  | pass stop' captures again =>
      rw [Outcome.either_pass, Outcome.noting_passes_iff, outcome]
      constructor
      · rintro ⟨again', passes⟩
        split at passes
        · rename_i w value
          cases passes
          exact ⟨captures, ⟨again, rfl⟩, value⟩
        · cases passes
      · rintro ⟨captures', ⟨again', passes⟩, value⟩
        cases passes
        rw [value]
        exact ⟨[], rfl⟩
  | fail again =>
      exact ⟨fun ⟨_, passes⟩ => (nomatch passes), fun ⟨_, ⟨_, passes⟩, _⟩ => (nomatch passes)⟩
  | error f => exact ⟨fun ⟨_, passes⟩ => (nomatch passes), fun ⟨_, ⟨_, passes⟩, _⟩ => (nomatch passes)⟩
  | deep => exact ⟨fun ⟨_, passes⟩ => (nomatch passes), fun ⟨_, ⟨_, passes⟩, _⟩ => (nomatch passes)⟩

end Rule

namespace Alternative

variable {library : Library} {T : String} {call : Nat → Parse Value}

/-- The meaning of an alternative. -/
def parse (library : Library) (T : String) (call : Nat → Parse Value) (x : Alternative) : Parse Value :=
  fun calls pos =>
    (Token.parse T call x.tokens calls pos).either (x.rule.outcome library T pos) (.fail [])

/-- The meaning of alternatives tried in order. -/
def parseList (library : Library) (T : String) (call : Nat → Parse Value) : List Alternative → Parse Value
  | [] => Parse.fail
  | x :: rest => (x.parse library T call).orElse (parseList library T call rest)

end Alternative

theorem Parse.orElse_assoc {α : Type} (p q r : Parse α) :
    (p.orElse q).orElse r = p.orElse (q.orElse r) := by
  funext calls pos
  simp only [Parse.orElse]
  cases p calls pos <;> simp

theorem Parse.fail_orElse {α : Type} (q : Parse α) : Parse.fail.orElse q = q := by
  funext calls pos
  simp [Parse.orElse, Parse.fail]

section

variable {library : Library} {T : String} {call : Nat → Parse Value}

theorem Alternative.parseList_append (xs ys : List Alternative) :
    parseList library T call (xs ++ ys) =
      (parseList library T call xs).orElse (parseList library T call ys) := by
  induction xs with
  | nil => exact (Parse.fail_orElse _).symm
  | cons x rest ih => rw [List.cons_append, parseList, parseList, ih, Parse.orElse_assoc]

theorem Rule.parse_eq (r : Rule) :
    r.parse library T call = Alternative.parseList library T call r.alternatives := by
  have patterns : ∀ ps : List Pattern,
      (fun calls pos => (Pattern.parse T call ps calls pos).either (r.outcome library T pos) (.fail [])) =
        Alternative.parseList library T call (ps.map fun x => ⟨x.tokens, r⟩) := by
    intro ps
    induction ps with
    | nil =>
        funext calls pos
        simp [Pattern.parse, Parse.fail, Alternative.parseList]
    | cons x rest ih =>
        obtain ⟨tokens, canFail, id⟩ := x
        rw [List.map_cons, Alternative.parseList, ← ih]
        funext calls pos
        simp only [Pattern.parse, Parse.orElse, Alternative.parse]
        cases Token.parse T call tokens calls pos with
        | pass stop captures again =>
            simp only [Outcome.either_pass, Outcome.either_noting, Outcome.noting_nil, Rule.outcome]
            split <;> simp
        | fail again => simp
        | error f => rfl
        | deep => rfl
  exact patterns r.patterns

/-- The rules of a ruleset mean what its alternatives mean. -/
theorem Rule.parseList_eq (rules : List Rule) :
    Rule.parseList library T call rules =
      Alternative.parseList library T call (rules.flatMap Rule.alternatives) := by
  induction rules with
  | nil => rfl
  | cons r rest ih =>
      rw [Rule.parseList, ih, Rule.parse_eq, List.flatMap_cons, Alternative.parseList_append]

end

namespace Alternative

variable {library : Library} {T : String} {call : Nat → Parse Value} {calls : List OpenCall} {pos stop : Nat}
  {v : Value} {again : List (Nat × Nat)}

theorem fails_iff {x : Alternative} :
    (x.parse library T call calls pos).Fails ↔ (Token.parse T call x.tokens calls pos).Fails :=
  x.rule.outcome_fails_iff id

theorem passes_iff {x : Alternative} :
    (x.parse library T call calls pos).Passes stop v ↔
      ∃ captures, (Token.parse T call x.tokens calls pos).Passes stop captures ∧
        x.rule.valueOf library T pos stop captures = .ok v :=
  x.rule.outcome_passes_iff id

/-- Alternatives fail together. -/
theorem parseList_fail {xs : List Alternative} (h : parseList library T call xs calls pos = .fail again) :
    ∀ x ∈ xs, (x.parse library T call calls pos).Fails := by
  induction xs generalizing again with
  | nil => exact fun _ member => nomatch member
  | cons x rest ih =>
      rw [parseList, Parse.orElse] at h
      cases outcome : x.parse library T call calls pos with
      | pass stop v again' => simp [outcome] at h
      | fail again' =>
          rw [outcome, Outcome.either_fail] at h
          obtain ⟨more, fails⟩ := Outcome.noting_fails_iff.1 ⟨again, h⟩
          exact List.forall_mem_cons.2 ⟨⟨again', outcome⟩, ih fails⟩
      | error f => simp [outcome] at h
      | deep => simp [outcome] at h

/-- Alternatives give what the first of them gives that does not fail. -/
theorem parseList_pass {xs : List Alternative}
    (h : parseList library T call xs calls pos = .pass stop v again) :
    ∃ x, Outcome.First (fun x => x.parse library T call calls pos) xs x stop v := by
  induction xs generalizing again with
  | nil => cases h
  | cons x rest ih =>
      rw [parseList, Parse.orElse] at h
      cases outcome : x.parse library T call calls pos with
      | pass stop' v' again' =>
          simp only [outcome, Outcome.either_pass, Outcome.noting_pass, Outcome.pass.injEq] at h
          obtain ⟨rfl, rfl, -⟩ := h
          exact ⟨x, .here ⟨again', outcome⟩⟩
      | fail again' =>
          rw [outcome, Outcome.either_fail] at h
          obtain ⟨more, passes⟩ := Outcome.noting_passes_iff.1 ⟨again, h⟩
          obtain ⟨y, first⟩ := ih passes
          exact ⟨y, .later ⟨again', outcome⟩ first⟩
      | error f => simp [outcome] at h
      | deep => simp [outcome] at h

end Alternative

end PegFlow
