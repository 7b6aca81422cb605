/-
# PegFlow.Proofs.Meaning.LeftFold -- direct left recursion is a greedy left fold

A ruleset may begin with alternatives that call it first, capture its output and go on with a
tail, before others, its bases. When neither calls the ruleset again where it began, a call
means a loop that is nowhere to be seen in how calls are tried (`Grammar.call_folds`): take the
first base that matches, and as long as there is a tail that matches behind it and gets
further, let the rule of the first such tail give the next output, with the one so far as `$1`.
-/
import PegFlow.Proofs.Meaning.Alternatives
import PegFlow.Proofs.Meaning.Local
import PegFlow.Proofs.Meaning.Slots

namespace PegFlow

set_option autoImplicit false

/-! ## The fold -/

/-- It calls the ruleset first and captures its output. -/
def Alternative.Extends (ruleset : Nat) (x : Alternative) : Prop :=
  ∃ patterns slot id pos tail,
    x.tokens = ⟨.capture patterns slot, true, false, false, false, id, pos⟩ :: tail ∧
      Pattern.plainTarget? patterns = some ruleset

/-- The tokens behind the first one. -/
def Alternative.tail (x : Alternative) : List Token := x.tokens.tail

/-- The slots of its captures are as the layout of its rule says. -/
def Alternative.Laid (x : Alternative) : Prop := Token.Laid 1 false x.tokens x.rule.captures

/-- The alternatives of the ruleset are those that call it first, followed by the bases. -/
structure Grammar.GrowsLeft (g : Grammar) (ruleset : Nat) (steps bases : List Alternative) : Prop where
  alternatives : g.alternativesAt ruleset = steps ++ bases
  extend : ∀ x ∈ steps, x.Extends ruleset

/-- The output of a rule whose first capture is the output of a ruleset. -/
def Rule.valueAfter (library : Library) (T : String) (r : Rule) (previous : Value) (start stop : Nat)
    (captures : List Capture) : Except Fault Value :=
  State.ruleOutput
    { library, layout := r.captures, slots := previous :: (Capture.assemble r.captures captures).tail
      start, stop, input := Buffer.complete T }
    r.output

section

variable (library : Library) (T : String) (attempt : List Token → Nat → Outcome (List Capture))
  (steps bases : List Alternative) (start : Nat)

/-- What a result becomes when the first tail that matches behind it extends it again and
again, until none matches or the first one that does ends no further. -/
inductive Extended : Seed → Seed → Prop
  | noTail {best : Seed} (fails : ∀ x ∈ steps, (attempt x.tail best.stop).Fails) : Extended best best
  | noGain {best : Seed} {x : Alternative} {stop : Nat} {captures : List Capture}
      (first : Outcome.First (fun x => attempt x.tail best.stop) steps x stop captures)
      (gain : ¬ best.stop < stop) : Extended best best
  | round {best last : Seed} {x : Alternative} {stop : Nat} {captures : List Capture} {v : Value}
      (first : Outcome.First (fun x => attempt x.tail best.stop) steps x stop captures)
      (gain : best.stop < stop)
      (output : x.rule.valueAfter library T best.value start stop captures = .ok v)
      (rest : Extended ⟨v, stop⟩ last) : Extended best last

/-- The first base that matches, extended by tails. -/
def LeftFold (last : Seed) : Prop :=
  ∃ x stop captures v, Outcome.First (fun x => attempt x.tokens start) bases x stop captures ∧
    x.rule.valueOf library T start stop captures = .ok v ∧
    Extended library T attempt steps start ⟨v, stop⟩ last

end

/-- Begun where the ruleset is called, the attempt does not reach it again before it has used up
input, whatever such a call would give. -/
def Parse.Apart {α : Type} (ruleset : Nat) (calls : List OpenCall) (pos : Nat) (q : Parse α) : Prop :=
  ∀ answer, (ruleset, pos) ∉ (q (⟨ruleset, pos, answer⟩ :: calls) pos).again

theorem Pattern.Laid.tokens {next : Nat} {repeated : Bool} {layout : List Bool} :
    ∀ {ps : List Pattern}, Pattern.Laid next repeated ps layout →
      ∀ x ∈ ps, Token.Laid next repeated x.tokens layout
  | ⟨_, _, _⟩ :: _, ⟨here, later⟩, x, member => by
      rcases List.mem_cons.1 member with rfl | member
      · exact here
      · exact Pattern.Laid.tokens later x member

theorem Grammar.Laid.alternatives {g : Grammar} (laid : g.Laid) {ruleset : Nat} :
    ∀ x ∈ g.alternativesAt ruleset, x.Laid := by
  intro x member
  obtain ⟨r, inside, member⟩ := List.mem_flatMap.1 member
  obtain ⟨y, pattern, rfl⟩ := List.mem_map.1 member
  rw [rulesAt] at inside
  cases found : g.rulesets[ruleset]? with
  | none =>
      rw [found] at inside
      cases inside
  | some s =>
      rw [found] at inside
      exact Pattern.Laid.tokens (laid s (List.mem_of_getElem? found) r inside) y pattern

/-! ## Alternatives that extend a result -/

section

variable {g : Grammar} {library : Library} {T : String} {ruleset depth : Nat} {calls : List OpenCall}
  {pos : Nat} {steps bases : List Alternative}

theorem Grammar.call_under {c : OpenCall} (found : OpenCall.at? calls (ruleset, pos) = some c) :
    g.call library T depth ruleset calls pos =
      c.answer.elim (.fail [(ruleset, pos)]) fun seed => .pass seed.stop seed.value [(ruleset, pos)] := by
  cases depth with
  | zero => exact Parse.call_under found
  | succ depth => exact Parse.call_under found

theorem OpenCall.at?_newest (c : OpenCall) : at? (c :: calls) (c.ruleset, c.start) = some c := by
  rw [at?_cons, if_pos rfl]

/-- As long as the call has no result, an alternative that calls its ruleset first fails. -/
theorem Alternative.Extends.parse_none {x : Alternative} (h : x.Extends ruleset) :
    x.parse library T (g.call library T depth) (⟨ruleset, pos, none⟩ :: calls) pos =
      .fail [(ruleset, pos)] := by
  obtain ⟨patterns, slot, id, at_, tail, tokens, target⟩ := h
  have asked : g.call library T depth ruleset (⟨ruleset, pos, none⟩ :: calls) pos = _ :=
    g.call_under (OpenCall.at?_newest ⟨ruleset, pos, none⟩)
  simp [Alternative.parse, tokens, Token.parse, Matcher.parse, target, Parse.modified, Parse.andThen,
    Parse.recorded, Outcome.map, asked]

/-- Else it goes on with its tail behind that result, and captures its value. -/
theorem Alternative.Extends.parse_some {x : Alternative} (h : x.Extends ruleset) (laid : x.Laid)
    (best : Seed) :
    x.parse library T (g.call library T depth) (⟨ruleset, pos, some best⟩ :: calls) pos =
      ((Token.parse T (g.call library T depth) x.tail (⟨ruleset, pos, some best⟩ :: calls) best.stop).either
        (fun stop captures => x.rule.outcome library T pos stop (⟨1, best.value⟩ :: captures))
        (.fail [])).noting [(ruleset, pos)] := by
  obtain ⟨patterns, slot, id, at_, tail, tokens, target⟩ := h
  have asked : g.call library T depth ruleset (⟨ruleset, pos, some best⟩ :: calls) pos = _ :=
    g.call_under (OpenCall.at?_newest ⟨ruleset, pos, some best⟩)
  rw [Laid, tokens] at laid
  obtain ⟨_, _, _, ⟨rfl, _⟩, _⟩ := laid
  simp only [Alternative.parse, Alternative.tail, tokens, Token.parse, Matcher.parse, target,
    Parse.modified, Bool.false_eq_true, if_true, if_false, Parse.andThen, Parse.recorded, Outcome.map,
    asked, List.tail_cons, Option.elim_some, Outcome.either_pass, Outcome.noting_pass, Outcome.either_noting]
  cases Token.parse T (g.call library T depth) tail (⟨ruleset, pos, some best⟩ :: calls) best.stop <;> simp

/-- The captures of a tail leave `$1` to the call in front of it. -/
theorem Alternative.Extends.valueOf_eq {x : Alternative} (h : x.Extends ruleset) (laid : x.Laid)
    {call : Nat → Parse Value} {start middle stop : Nat} {captures : List Capture}
    (passes : (Token.parse T call x.tail calls middle).Passes stop captures) (previous : Value) :
    x.rule.valueOf library T start stop (⟨1, previous⟩ :: captures) =
      x.rule.valueAfter library T previous start stop captures := by
  obtain ⟨patterns, slot, id, at_, tail, tokens, -⟩ := h
  rw [Laid, tokens] at laid
  obtain ⟨here, later, layout, ⟨-, inner, rfl, -⟩, laid⟩ := laid
  obtain ⟨again, passes⟩ := passes
  have recorded := Token.parse_records _ _ tail later laid calls middle stop captures again
    (by rwa [Alternative.tail, tokens] at passes)
  rw [Rule.valueOf, Rule.valueAfter, layout, Bool.false_or, List.cons_append,
    Capture.assemble_cons fun c member => ?_]
  have le := recorded c member
  rw [List.length_cons] at le
  omega

/-- An extending alternative fails where its tail fails behind the result so far. -/
theorem Alternative.Extends.fails_iff {x : Alternative} (h : x.Extends ruleset) (laid : x.Laid)
    (best : Seed) :
    (x.parse library T (g.call library T depth) (⟨ruleset, pos, some best⟩ :: calls) pos).Fails ↔
      (Token.parse T (g.call library T depth) x.tail (⟨ruleset, pos, some best⟩ :: calls)
        best.stop).Fails := by
  rw [h.parse_some laid, Outcome.noting_fails_iff, Rule.outcome_fails_iff]

/-- It matches where its tail does, and its output has that result for `$1`. -/
theorem Alternative.Extends.passes_iff {x : Alternative} (h : x.Extends ruleset) (laid : x.Laid)
    (best : Seed) {stop : Nat} {v : Value} :
    (x.parse library T (g.call library T depth) (⟨ruleset, pos, some best⟩ :: calls) pos).Passes stop v ↔
      ∃ captures, (Token.parse T (g.call library T depth) x.tail (⟨ruleset, pos, some best⟩ :: calls)
        best.stop).Passes stop captures ∧
          x.rule.valueAfter library T best.value pos stop captures = .ok v := by
  rw [h.parse_some laid, Outcome.noting_passes_iff, Rule.outcome_passes_iff]
  refine exists_congr fun captures => and_congr_right fun passes => ?_
  rw [h.valueOf_eq laid passes]

/-! ## Without the call -/

theorem Outcome.Fails.settled {α : Type} {o : Outcome α} (h : o.Fails) : o.Settled := by
  obtain ⟨again, rfl⟩ := h
  trivial

theorem Outcome.Passes.settled {α : Type} {o : Outcome α} {stop : Nat} {v : α} (h : o.Passes stop v) :
    o.Settled := by
  obtain ⟨again, rfl⟩ := h
  trivial

/-- A match does not end before it began. -/
theorem Token.parse_forward {ts : List Token} {stop : Nat} {captures : List Capture}
    (forward : OpenCall.Forward calls)
    (passes : (Token.parse T (g.call library T depth) ts calls pos).Passes stop captures) : pos ≤ stop := by
  obtain ⟨again, passes⟩ := passes
  have confined : (Token.parse T (g.call library T depth) ts calls pos).Confined (0, 0) pos
      (Token.parse T (g.call library T depth) ts calls pos) :=
    Token.parse_confined (fun r => g.call_confined library T (Nat.le_refl depth) r (.refl forward _)) ts pos
  exact confined.forward stop (by rw [passes]; rfl)

/-- What does not come back to a call means the same when the call is not under way. -/
theorem Token.parse_alone {answer : Option Seed} {ts : List Token} {i : Nat}
    (forward : OpenCall.Forward calls) (ahead : ∀ seed, answer = some seed → pos ≤ seed.stop)
    (apart : Parse.Apart ruleset calls pos (Token.parse T (g.call library T (depth + 1)) ts)) (le : pos ≤ i)
    (settled : (Token.parse T (g.call library T depth) ts (⟨ruleset, pos, answer⟩ :: calls) i).Settled) :
    Token.parse T (g.call library T (depth + 1)) ts calls i =
      Token.parse T (g.call library T depth) ts (⟨ruleset, pos, answer⟩ :: calls) i := by
  have confined : ∀ {key : Nat × Nat} {calls' : List OpenCall},
      OpenCall.Lack key (⟨ruleset, pos, answer⟩ :: calls) calls' →
      (Token.parse T (g.call library T depth) ts (⟨ruleset, pos, answer⟩ :: calls) i).Confined key i
        (Token.parse T (g.call library T (depth + 1)) ts calls' i) := fun lack =>
    Token.parse_confined (fun r => g.call_confined library T (Nat.le_succ depth) r lack) ts i
  have away := confined (OpenCall.Lack.newest forward (c := ⟨ruleset, pos, answer⟩) ahead)
  refine away.same settled fun member => ?_
  rcases Nat.lt_or_eq_of_le le with behind | rfl
  · exact Nat.not_le_of_lt behind (away.later _ member)
  · have deeper := Outcome.Confined.eq_of_settled
      (fun key => confined (.refl (forward.cons (c := ⟨ruleset, pos, answer⟩) ahead) key)) settled
    exact apart answer (deeper ▸ member)

/-! ## Calls that fold -/

/-- Neither the tails nor the bases reach the ruleset again without using up input. -/
structure Grammar.Apart (g : Grammar) (library : Library) (T : String) (depth ruleset : Nat)
    (steps bases : List Alternative) (calls : List OpenCall) (pos : Nat) : Prop where
  tails : ∀ x ∈ steps, Parse.Apart ruleset calls pos (Token.parse T (g.call library T depth) x.tail)
  bases : ∀ x ∈ bases, Parse.Apart ruleset calls pos (Token.parse T (g.call library T depth) x.tokens)

variable (grows : g.GrowsLeft ruleset steps bases) (laid : ∀ x ∈ g.alternativesAt ruleset, x.Laid)
  (forward : OpenCall.Forward calls)
  (apart : g.Apart library T (depth + 1) ruleset steps bases calls pos)

section

variable {best : Seed} {x : Alternative} {stop : Nat} {v : Value}

include grows laid forward apart in
/-- The first alternative that extends a result is the one whose tail is the first to match. -/
theorem Grammar.Apart.first_step (le : pos ≤ best.stop)
    (first : Outcome.First
      (fun x => x.parse library T (g.call library T depth) (⟨ruleset, pos, some best⟩ :: calls) pos)
      steps x stop v) :
    ∃ captures,
      Outcome.First (fun x => Token.parse T (g.call library T (depth + 1)) x.tail calls best.stop)
        steps x stop captures ∧ x.rule.valueAfter library T best.value pos stop captures = .ok v := by
  have ahead : ∀ seed, some best = some seed → pos ≤ seed.stop := fun _ same => Option.some.inj same ▸ le
  have known : ∀ y ∈ steps, y.Laid := fun y member =>
    laid y (grows.alternatives ▸ List.mem_append_left bases member)
  have here := first.mem
  obtain ⟨captures, passes, value⟩ := ((grows.extend x here).passes_iff (known x here) best).1 first.passes
  refine ⟨captures, first.transfer (fun y member fails => ?_) ?_, value⟩
  · have fails := ((grows.extend y member).fails_iff (known y member) best).1 fails
    rwa [Token.parse_alone forward ahead (apart.tails y member) le fails.settled]
  · rwa [Token.parse_alone forward ahead (apart.tails x here) le passes.settled]

include grows laid forward apart in
/-- No alternative extends a result when no tail matches behind it. -/
theorem Grammar.Apart.no_step (le : pos ≤ best.stop)
    (fail : ∀ x ∈ steps,
      (x.parse library T (g.call library T depth) (⟨ruleset, pos, some best⟩ :: calls) pos).Fails) :
    ∀ x ∈ steps, (Token.parse T (g.call library T (depth + 1)) x.tail calls best.stop).Fails := by
  intro x member
  have ahead : ∀ seed, some best = some seed → pos ≤ seed.stop := fun _ same => Option.some.inj same ▸ le
  have known := laid x (grows.alternatives ▸ List.mem_append_left bases member)
  have fails := ((grows.extend x member).fails_iff known best).1 (fail x member)
  rwa [Token.parse_alone forward ahead (apart.tails x member) le fails.settled]

include forward apart in
/-- The bases do not depend on what the call gives so far. -/
theorem Grammar.Apart.first_base {answer : Option Seed}
    (ahead : ∀ seed, answer = some seed → pos ≤ seed.stop)
    (first : Outcome.First
      (fun x => x.parse library T (g.call library T depth) (⟨ruleset, pos, answer⟩ :: calls) pos)
      bases x stop v) :
    ∃ captures,
      Outcome.First (fun x => Token.parse T (g.call library T (depth + 1)) x.tokens calls pos)
        bases x stop captures ∧ x.rule.valueOf library T pos stop captures = .ok v := by
  obtain ⟨captures, passes, value⟩ := Alternative.passes_iff.1 first.passes
  refine ⟨captures, first.transfer (fun y member fails => ?_) ?_, value⟩
  · have fails := Alternative.fails_iff.1 fails
    rwa [Token.parse_alone forward ahead (apart.bases y member) (Nat.le_refl pos) fails.settled]
  · rwa [Token.parse_alone forward ahead (apart.bases x first.mem) (Nat.le_refl pos) passes.settled]

end

include grows in
theorem Grammar.GrowsLeft.parseList_eq {call : Nat → Parse Value} :
    Rule.parseList library T call (g.rulesAt ruleset) =
      Alternative.parseList library T call (steps ++ bases) := by
  rw [Rule.parseList_eq, ← Grammar.alternativesAt, grows.alternatives]

include grows laid forward apart in
/-- Growing a result extends it by tails, by induction on the rounds. The bases end no further
than the first of them that matched, so once no tail matches the result is final. -/
theorem Grammar.Apart.grow_extended {base : Alternative} {end_ : Nat} {captures : List Capture}
    (first : Outcome.First (fun x => Token.parse T (g.call library T (depth + 1)) x.tokens calls pos)
      bases base end_ captures) (fuel : Nat) {best : Seed} (le : pos ≤ best.stop) (above : end_ ≤ best.stop)
    (settled : (Parse.grow (fun answer => Alternative.parseList library T (g.call library T depth)
      (steps ++ bases) (⟨ruleset, pos, answer⟩ :: calls) pos) fuel best).Settled) :
    ∃ last, (Parse.grow (fun answer => Alternative.parseList library T (g.call library T depth)
        (steps ++ bases) (⟨ruleset, pos, answer⟩ :: calls) pos) fuel best).Passes last.stop last.value ∧
      Extended library T (fun ts i => Token.parse T (g.call library T (depth + 1)) ts calls i) steps pos
        best last := by
  induction fuel generalizing best with
  | zero => exact settled.elim
  | succ fuel ih =>
      rw [Parse.grow] at settled ⊢
      have ahead : ∀ seed, some best = some seed → pos ≤ seed.stop := fun _ same => Option.some.inj same ▸ le
      cases outcome : Alternative.parseList library T (g.call library T depth) (steps ++ bases)
          (⟨ruleset, pos, some best⟩ :: calls) pos with
      | pass stop v again =>
          simp only [outcome, Outcome.either_pass] at settled ⊢
          obtain ⟨x, found⟩ := Alternative.parseList_pass outcome
          rcases found.of_append with step | ⟨none, behind⟩
          · obtain ⟨captures, tail, value⟩ := apart.first_step grows laid forward le step
            by_cases gain : best.stop < stop
            · rw [if_pos gain] at settled ⊢
              obtain ⟨last, passes, rest⟩ := @ih ⟨v, stop⟩ (by dsimp only; omega) (by dsimp only; omega)
                ((Outcome.settled_noting _ _).1 settled)
              exact ⟨last, Outcome.noting_passes_iff.2 passes, .round tail gain value rest⟩
            · rw [if_neg gain]
              exact ⟨best, ⟨_, rfl⟩, .noGain tail gain⟩
          · obtain ⟨captures', same, -⟩ := apart.first_base forward ahead behind
            obtain ⟨-, rfl, -⟩ := first.unique same
            rw [if_neg (Nat.not_lt.2 above)]
            exact ⟨best, ⟨_, rfl⟩, .noTail (apart.no_step grows laid forward le none)⟩
      | fail again =>
          rw [Outcome.either_fail]
          have all := Alternative.parseList_fail outcome
          refine ⟨best, ⟨_, rfl⟩, .noTail (apart.no_step grows laid forward le fun x member => ?_)⟩
          exact all x (List.mem_append_left bases member)
      | error f =>
          simp only [outcome] at settled
          exact settled.elim
      | deep =>
          simp only [outcome] at settled
          exact settled.elim

/-- The first alternative that extends a result makes the call again. -/
theorem Alternative.Extends.again {x : Alternative} (h : x.Extends ruleset) {rest : List Alternative}
    {stop : Nat} {v : Value} {again : List (Nat × Nat)}
    (passes : Alternative.parseList library T (g.call library T depth) (x :: rest)
      (⟨ruleset, pos, none⟩ :: calls) pos = .pass stop v again) : (ruleset, pos) ∈ again := by
  rw [Alternative.parseList, Parse.orElse, h.parse_none, Outcome.either_fail] at passes
  cases outcome : Alternative.parseList library T (g.call library T depth) rest
      (⟨ruleset, pos, none⟩ :: calls) pos with
  | pass stop' v' more =>
      rw [outcome] at passes
      cases passes
      exact List.mem_cons_self
  | fail | error | deep =>
      rw [outcome] at passes
      cases passes

omit apart in
include grows laid forward in
/-- A call of a ruleset that extends itself fails if all its bases fail, and else gives the fold
of its tails over the first base that matches. -/
theorem Grammar.Apart.call_folds {depth : Nat} (apart : g.Apart library T depth ruleset steps bases calls pos)
    (positive : 0 < depth) (fresh : OpenCall.at? calls (ruleset, pos) = none)
    (settled : (g.call library T depth ruleset calls pos).Settled) :
    ((g.call library T depth ruleset calls pos).Fails ∧
        ∀ x ∈ bases, (Token.parse T (g.call library T depth) x.tokens calls pos).Fails) ∨
      ∃ last, (g.call library T depth ruleset calls pos).Passes last.stop last.value ∧
        LeftFold library T (fun ts i => Token.parse T (g.call library T depth) ts calls i) steps bases
          pos last := by
  obtain ⟨depth, rfl⟩ := Nat.exists_eq_succ_of_ne_zero positive.ne'
  have nothing : ∀ seed : Seed, none = some seed → pos ≤ seed.stop := nofun
  have unextended : ∀ x ∈ steps, (x.parse library T (g.call library T depth)
      (⟨ruleset, pos, none⟩ :: calls) pos).Fails := fun x member =>
    ⟨_, (grows.extend x member).parse_none⟩
  have called : g.call library T (depth + 1) ruleset calls pos = _ := Parse.call_fresh fresh
  rw [grows.parseList_eq] at called
  cases outcome : Alternative.parseList library T (g.call library T depth) (steps ++ bases)
      (⟨ruleset, pos, none⟩ :: calls) pos with
  | pass stop v again =>
      obtain ⟨x, found⟩ := Alternative.parseList_pass outcome
      rcases found.of_append with step | ⟨-, base⟩
      · exact absurd (unextended x step.mem) fun ⟨_, fails⟩ => by
          obtain ⟨_, passes⟩ := step.passes
          cases fails.symm.trans passes
      · obtain ⟨captures, first, value⟩ := apart.first_base forward nothing base
        right
        rw [outcome] at called
        dsimp only at called
        by_cases recursive : (ruleset, pos) ∈ again
        · rw [if_pos recursive] at called
          rw [called] at settled ⊢
          have le : pos ≤ (Seed.mk v stop).stop := Token.parse_forward forward first.passes
          obtain ⟨last, passes, rest⟩ := apart.grow_extended grows laid forward first (T.utf8ByteSize + 1) le
            (Nat.le_refl stop) ((Outcome.settled_noting _ _).1 settled)
          exact ⟨last, Outcome.noting_passes_iff.2 passes, x, stop, captures, v, first, value, rest⟩
        · rw [if_neg recursive] at called
          rw [called]
          refine ⟨⟨v, stop⟩, ⟨again, rfl⟩, x, stop, captures, v, first, value, .noTail fun y member => ?_⟩
          -- the first alternative that extends a result would have made the call again
          cases steps with
          | nil => cases member
          | cons z rest => exact absurd ((grows.extend z List.mem_cons_self).again outcome) recursive
  | fail again =>
      left
      have all := Alternative.parseList_fail outcome
      rw [called, outcome]
      refine ⟨⟨again, rfl⟩, fun x member => ?_⟩
      have fails := Alternative.fails_iff.1 (all x (List.mem_append_right steps member))
      rwa [Token.parse_alone forward nothing (apart.bases x member) (Nat.le_refl pos) fails.settled]
  | error f =>
      rw [called, outcome] at settled
      exact settled.elim
  | deep =>
      rw [called, outcome] at settled
      exact settled.elim

end

end PegFlow
