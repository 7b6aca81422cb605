/-
# PegFlow.Proofs.Meaning.Leading -- which calls an attempt can come back to where it began

Before it has used up input an attempt makes only the calls at the start of what it tries, and
those that they make at their own start. So if none of them leads to a ruleset, the attempt does
not come back to a call of that ruleset where it began, whatever the call would give.

`Outcome.Spares` says this of an outcome, together with what carries the induction: a match ends
further on unless the marks allow it to match nothing, so that only then what follows begins at
the same offset. The operations on parses keep it, and so do calls (`Grammar.call_spares`), by
induction on the depth that they may nest to. Hence the tails and bases of a ruleset are apart
from it when the calls at their start do not lead to it (`Grammar.Apart.of_leading`), which the
tree of the grammar tells.
-/
import PegFlow.Proofs.Grammar.LeftRecursion
import PegFlow.Proofs.Grammar.Nullable
import PegFlow.Proofs.Meaning.LeftFold

namespace PegFlow

set_option autoImplicit false
set_option linter.unusedSectionVars false

open Relation

/-! ## Outcomes -/

namespace Outcome

variable {α β : Type}

/-- A match from `pos` does not end before it, and ends further on if `nothing` is not the case;
the call at `key` was not made again. -/
structure Spares (key : Nat × Nat) (nothing : Bool) (pos : Nat) (o : Outcome α) : Prop where
  forward : ∀ stop, o.stop? = some stop → pos ≤ stop
  further : nothing = false → ∀ stop, o.stop? = some stop → pos < stop
  away : key ∉ o.again

namespace Spares

variable {key : Nat × Nat} {nothing nothing' : Bool} {pos : Nat} {o : Outcome α}

theorem pass {stop : Nat} (le : pos ≤ stop) (lt : nothing = false → pos < stop) (v : α) :
    Spares key nothing pos (.pass stop v []) where
  forward _ same := Option.some.inj same ▸ le
  further no _ same := Option.some.inj same ▸ lt no
  away := List.not_mem_nil

theorem stay (v : α) : Spares key true pos (.pass pos v []) where
  forward _ same := Nat.le_of_eq (Option.some.inj same)
  further no := nomatch no
  away := List.not_mem_nil

theorem fail : Spares key nothing pos (.fail [] : Outcome α) := ⟨nofun, nofun, List.not_mem_nil⟩

/-- Nothing is said of an attempt that comes to no end. -/
theorem unsettled (unsettled : ¬ o.Settled) : Spares key nothing pos o := by
  cases o with
  | pass | fail => exact absurd trivial unsettled
  | error | deep => exact ⟨nofun, nofun, List.not_mem_nil⟩

theorem loose (h : Spares key nothing pos o) (le : nothing = true → nothing' = true) :
    Spares key nothing' pos o where
  forward := h.forward
  further no := h.further (Bool.eq_false_iff.2 fun yes => Bool.eq_false_iff.1 no (le yes))
  away := h.away

theorem noting (h : Spares key nothing pos o) {before : List (Nat × Nat)} (away : key ∉ before) :
    Spares key nothing pos (o.noting before) where
  forward stop same := h.forward stop (stop?_noting o before ▸ same)
  further no stop same := h.further no stop (stop?_noting o before ▸ same)
  away member := by
    rcases again_noting o before with same | same
    · exact h.away (same ▸ member)
    · exact (List.mem_append.1 (same ▸ member)).elim away h.away

theorem either {passed : Nat → α → Outcome β} {failed : Outcome β} (h : Spares key nothing pos o)
    (pass : ∀ stop v, pos ≤ stop → (nothing = false → pos < stop) → Spares key nothing' pos (passed stop v))
    (fail : Spares key nothing' pos failed) : Spares key nothing' pos (o.either passed failed) := by
  cases o with
  | pass stop v again =>
      exact (pass stop v (h.forward stop rfl) fun no => h.further no stop rfl).noting h.away
  | fail again => exact fail.noting h.away
  | error | deep => exact .unsettled id

theorem map {f : Nat → α → β} (h : Spares key nothing pos o) : Spares key nothing pos (o.map f) :=
  h.either (fun stop v le lt => .pass le lt (f stop v)) .fail

/-- What follows a match spares the call from where the match began. -/
theorem behind {start : Nat} (h : Spares key nothing' pos o) (le : start ≤ pos)
    (lt : nothing = false → start < pos) : Spares key (nothing && nothing') start o where
  forward stop same := le.trans (h.forward stop same)
  further no stop same := by
    rcases Bool.and_eq_false_iff.1 no with no | no
    · exact (lt no).trans_le (h.forward stop same)
    · exact le.trans_lt (h.further no stop same)
  away := h.away

end Spares

end Outcome

/-! ## Parses -/

/-- A call of the ruleset may come to one of `target` before it has used up input. -/
def Grammar.LeadsTo (g : Grammar) (ruleset target : Nat) : Prop := ReflTransGen g.CallsFirst ruleset target

/-- The calls at the start of what is tried at `pos` do not come to the call at `key`: either it
began earlier, or none of them leads to its ruleset. -/
structure Grammar.Clear (g : Grammar) (key : Nat × Nat) (leading : List Nat) (pos : Nat) : Prop where
  le : key.2 ≤ pos
  free : pos = key.2 → ∀ ruleset ∈ leading, ¬ g.LeadsTo ruleset key.1

namespace Grammar.Clear

variable {g : Grammar} {key : Nat × Nat} {leading leading' : List Nat} {pos pos' : Nat}

theorem later (clear : g.Clear key leading pos) (forward : pos ≤ pos')
    (fewer : pos' = pos → leading' ⊆ leading) : g.Clear key leading' pos' where
  le := clear.le.trans forward
  free here ruleset member := by
    have same : pos' = pos := le_antisymm (here ▸ clear.le) forward
    exact clear.free (same ▸ here) ruleset (fewer same member)

theorem fewer (clear : g.Clear key leading pos) (fewer : leading' ⊆ leading) : g.Clear key leading' pos :=
  clear.later le_rfl fun _ => fewer

/-- A call that is clear of another one is a different call. -/
theorem ne {ruleset : Nat} (clear : g.Clear key [ruleset] pos) : (ruleset, pos) ≠ key := by
  rintro rfl
  exact clear.free rfl ruleset List.mem_cons_self .refl

/-- The calls at the start of a ruleset are clear where a call of it is. -/
theorem inside {ruleset : Nat} (clear : g.Clear key [ruleset] pos)
    (first : ∀ called ∈ leading, g.CallsFirst ruleset called) : g.Clear key leading pos where
  le := clear.le
  free here called member leads :=
    clear.free here ruleset List.mem_cons_self (leads.head (first called member))

end Grammar.Clear

namespace Parse

variable {α : Type} {g : Grammar} {T : String} {key : Nat × Nat} {calls : List OpenCall}
  {leading leading' : List Nat} {nothing nothing' : Bool}

/-- Wherever the calls at its start do not come to the call at `key`, neither does the parse. -/
def Spares (g : Grammar) (key : Nat × Nat) (leading : List Nat) (nothing : Bool) (calls : List OpenCall)
    (q : Parse α) : Prop :=
  ∀ pos, g.Clear key leading pos → (q calls pos).Spares key nothing pos

namespace Spares

variable {q r : Parse (List Capture)}

theorem pass : Spares g key leading true calls Parse.pass := fun _ _ => .stay []

theorem fail : Spares g key leading nothing calls (Parse.fail : Parse α) := fun _ _ => .fail

theorem terminal {t : Terminal} (filled : nothing = false → t ≠ .literal "") :
    Spares g key leading nothing calls (Parse.terminal T t) := by
  intro pos _
  rw [Parse.terminal]
  cases matched : t.sizeAt T pos with
  | none => exact .fail
  | some size =>
      refine .pass (Nat.le_add_right pos size) (fun no => ?_) []
      exact Nat.lt_add_of_pos_right (Terminal.pos_of_sizeAt (filled no) matched)

theorem orElse {one other : Parse α} (h : Spares g key leading nothing calls one)
    (h' : Spares g key leading' nothing' calls other) :
    Spares g key (leading ++ leading') (nothing || nothing') calls (one.orElse other) := by
  intro pos clear
  have first := h pos (clear.fewer (List.subset_append_left _ _))
  have second := h' pos (clear.fewer (List.subset_append_right _ _))
  refine first.either (fun stop v le lt => .pass le (fun no => lt (Bool.or_eq_false_iff.1 no).1) v) ?_
  exact second.loose fun yes => by rw [yes, Bool.or_true]

/-- What follows is tried at the same offset only if the first parse may match nothing. -/
theorem andThen (h : Spares g key leading nothing calls q) (h' : Spares g key leading' nothing' calls r) :
    Spares g key (leading ++ if nothing then leading' else []) (nothing && nothing') calls (q.andThen r) := by
  intro pos clear
  refine (h pos (clear.fewer (List.subset_append_left _ _))).either (fun middle first le lt => ?_) .fail
  have there : g.Clear key leading' middle := by
    refine clear.later le fun same => ?_
    cases nothing with
    | true => exact List.subset_append_right _ _
    | false => exact absurd same (lt rfl).ne'
  exact ((h' middle there).behind le lt).map

theorem lookahead (h : Spares g key leading nothing calls q) :
    Spares g key leading true calls q.lookahead := fun pos clear =>
  (h pos clear).either (fun _ _ _ _ => .stay []) .fail

theorem notAhead (h : Spares g key leading nothing calls q) :
    Spares g key leading true calls q.notAhead := fun pos clear =>
  (h pos clear).either (fun _ _ _ _ => .fail) (.stay [])

theorem optional (slots : List Nat) (h : Spares g key leading nothing calls q) :
    Spares g key leading true calls (q.optional slots) := by
  intro pos clear
  refine (h pos clear).either (fun stop captures le _ => ?_) (.stay _)
  exact .pass le (by simp) captures

/-- By induction on the rounds left: each of them but the last one ends further on, so the next one
is clear. -/
theorem rounds {least : Nat} (h : Spares g key leading nothing calls q) (fuel count : Nat) :
    Spares g key leading (decide (least ≤ count) || nothing) calls (q.rounds least fuel count) := by
  induction fuel generalizing count with
  | zero => exact fun _ _ => .unsettled id
  | succ fuel ih =>
      intro pos clear
      have ended : (ended least count pos).Spares key (decide (least ≤ count) || nothing) pos := by
        rw [Parse.ended]
        split
        · rename_i enough
          exact (Outcome.Spares.stay []).loose fun _ => by simp [enough]
        · exact .fail
      refine (h pos clear).either (fun stop captures le _ => ?_) ended
      split
      · exact ended
      · rename_i moved
        have lt : pos < stop := lt_of_le_of_ne le (Ne.symm moved)
        have rest := ih (count + 1) stop (clear.later le fun same => absurd same moved)
        exact ((rest.behind le fun (_ : false = false) => lt).loose (by simp)).map

theorem loop (least : Nat) (h : Spares g key leading nothing calls q) :
    Spares g key leading (decide (least ≤ 0) || nothing) calls (q.loop T least) := h.rounds _ 0

theorem modified (required repeated ahead notAhead : Bool) (slots : List Nat)
    (h : Spares g key leading nothing calls q) :
    Spares g key leading (!required || ahead || notAhead || nothing) calls
      (q.modified T required repeated ahead notAhead slots) := by
  rw [Parse.modified]
  have counted : Spares g key leading (!required || nothing) calls
      (if repeated then q.loop T (if required then 1 else 0) else if required then q else q.optional slots) := by
    cases required with
    | true => cases repeated with
      | true => exact h.loop 1
      | false => exact h
    | false => cases repeated with
      | true => exact h.loop 0
      | false => exact h.optional slots
  cases ahead with
  | true => simpa using counted.lookahead
  | false => cases notAhead with
    | true => simpa using counted.notAhead
    | false => simpa using counted

theorem captured (slot : Nat) (h : Spares g key leading nothing calls q) :
    Spares g key leading nothing calls (q.captured T slot) := fun pos clear => (h pos clear).map

variable {v : Parse Value}

theorem recorded (slot : Nat) (h : Spares g key leading nothing calls v) :
    Spares g key leading nothing calls (v.recorded slot) := fun pos clear => (h pos clear).map

theorem silent (h : Spares g key leading nothing calls v) :
    Spares g key leading nothing calls v.silent := fun pos clear => (h pos clear).map

end Spares

end Parse

/-! ## Parts of a grammar -/

/-- A plain reference calls its ruleset, and nothing else. -/
theorem Pattern.leading_of_plainTarget? (marks : List Bool) {ps : List Pattern} {ruleset : Nat}
    (plain : Pattern.plainTarget? ps = some ruleset) :
    Pattern.leadingCalls marks ps = [ruleset] ∧
      Pattern.someNullable marks ps = marks[ruleset]?.getD false := by
  unfold Pattern.plainTarget? at plain
  split at plain
  · subst plain
    simp [Pattern.leadingCalls, Pattern.someNullable, Token.leadingCalls, Token.allNullable,
      Matcher.leadingCalls, Matcher.nullable]
  · cases plain

section

variable {g : Grammar} {T : String} {call : Nat → Parse Value} {key : Nat × Nat} {calls : List OpenCall}
  (spares : ∀ ruleset, Parse.Spares g key [ruleset] (g.emptyMark ruleset) calls (call ruleset))

include spares

mutual

theorem Matcher.parse_spares : ∀ m : Matcher,
    Parse.Spares g key (m.leadingCalls g.nullable) (m.nullable g.nullable) calls (m.parse T call)
  | .literal text _ => by
      rw [Matcher.parse, Matcher.nullable]
      exact .terminal fun filled empty => by
        cases empty
        cases filled
  | .charClass spec _ => by
      rw [Matcher.parse]
      cases compiled : Terminal.ofClass? spec with
      | ok t =>
          refine .terminal fun _ empty => ?_
          cases empty
          cases outcome : CharClass.compile? spec <;> simp [Terminal.ofClass?, outcome, Except.map] at compiled
      | error e => exact .fail
  | .any _ => .terminal fun _ => nofun
  | .ref _ none => .fail
  | .ref _ (some ruleset) => by
      rw [Matcher.parse, Matcher.nullable, Matcher.leadingCalls]
      exact (spares ruleset).silent
  | .group patterns => by
      rw [Matcher.parse, Matcher.nullable, Matcher.leadingCalls]
      exact Pattern.parse_spares patterns
  | .capture patterns slot => by
      rw [Matcher.parse, Matcher.nullable, Matcher.leadingCalls]
      cases plain : Pattern.plainTarget? patterns with
      | some ruleset =>
          obtain ⟨leading, nothing⟩ := Pattern.leading_of_plainTarget? g.nullable plain
          rw [leading, nothing]
          exact (spares ruleset).recorded slot
      | none => exact (Pattern.parse_spares patterns).captured slot

theorem Token.parse_spares : ∀ ts : List Token,
    Parse.Spares g key (Token.leadingCalls g.nullable ts) (Token.allNullable g.nullable ts) calls
      (Token.parse T call ts)
  | [] => .pass
  | ⟨matcher, required, repeated, ahead, notAhead, _, _⟩ :: rest => by
      rw [Token.parse, Token.allNullable, Token.leadingCalls, Token.nullable_eq]
      exact ((Matcher.parse_spares matcher).modified required repeated ahead notAhead _).andThen
        (Token.parse_spares rest)

theorem Pattern.parse_spares : ∀ ps : List Pattern,
    Parse.Spares g key (Pattern.leadingCalls g.nullable ps) (Pattern.someNullable g.nullable ps) calls
      (Pattern.parse T call ps)
  | [] => .fail
  | ⟨tokens, _, _⟩ :: rest => by
      rw [Pattern.parse, Pattern.leadingCalls, Pattern.someNullable]
      exact (Token.parse_spares tokens).orElse (Pattern.parse_spares rest)

end

theorem Rule.parse_spares (library : Library) (r : Rule) :
    Parse.Spares g key (Pattern.leadingCalls g.nullable r.patterns)
      (Pattern.someNullable g.nullable r.patterns) calls (r.parse library T call) := by
  intro pos clear
  refine (Pattern.parse_spares spares r.patterns pos clear).either (fun stop captures le lt => ?_) .fail
  split
  · exact .pass le lt _
  · exact .unsettled fun settled => settled

theorem Rule.parseList_spares (library : Library) (rules : List Rule) :
    Parse.Spares g key (rules.flatMap fun r => Pattern.leadingCalls g.nullable r.patterns)
      (rules.any fun r => Pattern.someNullable g.nullable r.patterns) calls
      (Rule.parseList library T call rules) := by
  induction rules with
  | nil => exact .fail
  | cons r rest ih =>
      rw [List.flatMap_cons, List.any_cons]
      exact (Rule.parse_spares spares library r).orElse ih

end

/-! ## Calls -/

/-- The result so far of a call of the ruleset at `pos` does not end before it, and ends further on
if the ruleset is not marked nullable. -/
def Grammar.Ahead (g : Grammar) (ruleset pos : Nat) (answer : Option Seed) : Prop :=
  ∀ seed, answer = some seed → pos ≤ seed.stop ∧ (¬ g.MayBeEmpty ruleset → pos < seed.stop)

/-- The results so far of the calls under way are ahead of where they began, but for the call at
`key`. -/
def OpenCall.Ahead (g : Grammar) (key : Nat × Nat) (calls : List OpenCall) : Prop :=
  ∀ c ∈ calls, (c.ruleset, c.start) ≠ key → g.Ahead c.ruleset c.start c.answer

section

variable {g : Grammar} {T : String} {key : Nat × Nat} {calls : List OpenCall} {ruleset pos : Nat}

theorem OpenCall.Ahead.cons (ahead : Ahead g key calls) {c : OpenCall}
    (answer : (c.ruleset, c.start) ≠ key → g.Ahead c.ruleset c.start c.answer) :
    Ahead g key (c :: calls) :=
  List.forall_mem_cons.2 ⟨answer, ahead⟩

namespace Parse

/-- Growing a result keeps it ahead. -/
theorem grow_spares {attempt : Option Seed → Outcome Value} {nothing : Bool}
    (attempts : ∀ best : Seed, pos ≤ best.stop → (nothing = false → pos < best.stop) →
      (attempt (some best)).Spares key nothing pos) (fuel : Nat) {best : Seed}
    (le : pos ≤ best.stop) (lt : nothing = false → pos < best.stop) :
    (grow attempt fuel best).Spares key nothing pos := by
  induction fuel generalizing best with
  | zero => exact .unsettled id
  | succ fuel ih =>
      refine (attempts best le lt).either (fun stop v le' lt' => ?_) (.pass le lt _)
      split
      · exact ih le' lt'
      · exact .pass le lt _

/-- The answer of a call that is under way. -/
theorem call_under_spares {rules : Parse Value} {c : OpenCall}
    (found : OpenCall.at? calls (ruleset, pos) = some c) (ahead : OpenCall.Ahead g key calls)
    (other : (ruleset, pos) ≠ key) :
    (call T ruleset rules calls pos).Spares key (g.emptyMark ruleset) pos := by
  obtain ⟨isRuleset, start⟩ : c.ruleset = ruleset ∧ c.start = pos := by
    have is := List.find?_some found
    simpa only [Bool.and_eq_true, beq_iff_eq] using is
  have answered := ahead c (List.mem_of_find?_eq_some found) (by rwa [isRuleset, start])
  have away : key ∉ [(ruleset, pos)] := fun member => other (List.mem_singleton.1 member).symm
  rw [isRuleset, start] at answered
  rw [call_under found]
  cases answer : c.answer with
  | none => exact ⟨nofun, nofun, away⟩
  | some seed =>
      obtain ⟨le, lt⟩ := answered seed answer
      exact (Outcome.Spares.pass le (fun no => lt (Grammar.not_mayBeEmpty_iff.2 no)) seed.value).noting away

/-- A call that is not under way, when its rules spare the other one with whatever result ahead the
call has. -/
theorem call_fresh_spares {rules : Parse Value} (found : OpenCall.at? calls (ruleset, pos) = none)
    (attempts : ∀ answer, g.Ahead ruleset pos answer →
      (rules (⟨ruleset, pos, answer⟩ :: calls) pos).Spares key (g.emptyMark ruleset) pos) :
    (call T ruleset rules calls pos).Spares key (g.emptyMark ruleset) pos := by
  rw [call_fresh found]
  have first := attempts none nofun
  cases outcome : rules (⟨ruleset, pos, none⟩ :: calls) pos with
  | pass stop v again =>
      rw [outcome] at first
      by_cases recursive : (ruleset, pos) ∈ again
      · have grown : (grow (fun answer => rules (⟨ruleset, pos, answer⟩ :: calls) pos)
            (T.utf8ByteSize + 1) ⟨v, stop⟩).Spares key (g.emptyMark ruleset) pos := by
          refine grow_spares (fun best le lt => attempts (some best) ?_) _ (first.forward stop rfl)
            fun no => first.further no stop rfl
          rintro _ ⟨⟩
          exact ⟨le, fun no => lt (Grammar.not_mayBeEmpty_iff.1 no)⟩
        dsimp only
        rw [if_pos recursive]
        exact grown.noting first.away
      · dsimp only
        rw [if_neg recursive]
        exact first
  | fail again =>
      rw [outcome] at first
      exact first
  | error f => exact .unsettled id
  | deep => exact .unsettled id

end Parse

/-- A call of a ruleset that does not lead to the one of another call does not come to that
call where it began, by induction on how deep calls may nest. -/
theorem Grammar.call_spares (library : Library) (depth : Nat) (ahead : OpenCall.Ahead g key calls)
    (ruleset : Nat) :
    Parse.Spares g key [ruleset] (g.emptyMark ruleset) calls (g.call library T depth ruleset) := by
  induction depth generalizing ruleset calls with
  | zero =>
      intro pos clear
      cases found : OpenCall.at? calls (ruleset, pos) with
      | some c => exact Parse.call_under_spares found ahead clear.ne
      | none => exact Parse.call_fresh_spares found fun _ _ => .unsettled id
  | succ depth ih =>
      intro pos clear
      cases found : OpenCall.at? calls (ruleset, pos) with
      | some c => exact Parse.call_under_spares found ahead clear.ne
      | none =>
          refine Parse.call_fresh_spares found fun answer there => ?_
          have under := ahead.cons (c := ⟨ruleset, pos, answer⟩) fun _ => there
          have rules := Rule.parseList_spares (T := T) (ih under) library (g.rulesAt ruleset)
          rw [rulesAt] at rules ⊢
          cases isRuleset : g.rulesets[ruleset]? with
          | none => exact .fail
          | some s =>
              rw [isRuleset] at rules
              refine (rules pos (clear.inside fun called member => ?_)).loose fun nothing => ?_
              · exact (callsFirst_iff isRuleset).2 (List.mem_flatMap.1 member)
              · rw [emptyMark, g.nullable_closed isRuleset nothing, Option.getD_some]

/-- What begins with calls that do not lead to a ruleset does not reach it before it has used up
input. -/
theorem Token.parse_apart {library : Library} {depth : Nat} (ahead : OpenCall.Ahead g (ruleset, pos) calls)
    {ts : List Token} (free : ∀ first ∈ Token.leadingCalls g.nullable ts, ¬ g.LeadsTo first ruleset) :
    Parse.Apart ruleset calls pos (Token.parse T (g.call library T depth) ts) := by
  intro answer
  have under : OpenCall.Ahead g (ruleset, pos) (⟨ruleset, pos, answer⟩ :: calls) :=
    ahead.cons fun other => absurd rfl other
  exact (Token.parse_spares (g.call_spares library depth under) ts pos ⟨le_rfl, fun _ => free⟩).away

/-- The tails and bases of a ruleset are apart from it when the calls at their start do not lead to
it. -/
theorem Grammar.Apart.of_leading {library : Library} {depth : Nat} {steps bases : List Alternative}
    (ahead : OpenCall.Ahead g (ruleset, pos) calls)
    (tails : ∀ x ∈ steps, ∀ first ∈ Token.leadingCalls g.nullable x.tail, ¬ g.LeadsTo first ruleset)
    (free : ∀ x ∈ bases, ∀ first ∈ Token.leadingCalls g.nullable x.tokens, ¬ g.LeadsTo first ruleset) :
    g.Apart library T depth ruleset steps bases calls pos where
  tails x member := Token.parse_apart ahead (tails x member)
  bases x member := Token.parse_apart ahead (free x member)

end

end PegFlow
