/-
# PegFlow.Proofs.Meaning.Local -- what an attempt does not depend on

An attempt to match does not go back before where it began, and makes no call again that
began before. A call under way that it does not make again has no influence on it: it turns
out the same without that call, and the same when calls may nest deeper
(`Grammar.call_confined`). `Outcome.Confined` says this of an outcome and the one without
the call, and the operations on parses keep it.
-/
import Mathlib.Data.Fintype.EquivFin
import PegFlow.Proofs.Meaning.Grammar

namespace PegFlow

set_option autoImplicit false
set_option linter.unusedSectionVars false

namespace Outcome

variable {α β : Type}

/-- The calls under way that were made again. -/
def again : Outcome α → List (Nat × Nat)
  | .pass _ _ again => again
  | .fail again => again
  | .error _ => []
  | .deep => []

/-- It matches or it fails. -/
def Settled : Outcome α → Prop
  | .pass .. => True
  | .fail _ => True
  | .error _ => False
  | .deep => False

/-- The outcome of an attempt from `pos` does not lie before it, and is also the other outcome
unless the call at `key` was made again. -/
structure Confined (key : Nat × Nat) (pos : Nat) (o o' : Outcome α) : Prop where
  forward : ∀ stop, o.stop? = some stop → pos ≤ stop
  later : ∀ k ∈ o.again, pos ≤ k.2
  same : o.Settled → key ∉ o.again → o' = o

variable {key : Nat × Nat} {pos : Nat} {o o' : Outcome α}

theorem again_noting (o : Outcome α) (before : List (Nat × Nat)) :
    (o.noting before).again = o.again ∨ (o.noting before).again = before ++ o.again := by
  cases o <;> simp [noting, again]

theorem settled_noting (o : Outcome α) (before : List (Nat × Nat)) :
    (o.noting before).Settled ↔ o.Settled := by
  cases o <;> rfl

theorem again_noting_of_settled (settled : o.Settled) (before : List (Nat × Nat)) :
    (o.noting before).again = before ++ o.again := by
  cases o with
  | pass | fail => rfl
  | error | deep => exact settled.elim

theorem stop?_noting (o : Outcome α) (before : List (Nat × Nat)) : (o.noting before).stop? = o.stop? := by
  cases o <;> rfl

namespace Confined

theorem pass {stop : Nat} (le : pos ≤ stop) (v : α) :
    Confined key pos (.pass stop v []) (.pass stop v []) where
  forward _ same := by
    cases same
    exact le
  later _ member := nomatch member
  same _ _ := rfl

theorem fail : Confined key pos (.fail [] : Outcome α) (.fail []) where
  forward _ same := nomatch same
  later _ member := nomatch member
  same _ _ := rfl

/-- Nothing more is said of an attempt that comes to no end. -/
theorem unsettled (unsettled : ¬ o.Settled) : Confined key pos o o' := by
  cases o with
  | pass | fail => exact absurd trivial unsettled
  | error | deep =>
      exact ⟨fun _ same => (nomatch same), fun _ member => (nomatch member), fun settled => settled.elim⟩

theorem mono {start : Nat} (h : Confined key pos o o') (le : start ≤ pos) : Confined key start o o' where
  forward stop same := Nat.le_trans le (h.forward stop same)
  later k member := Nat.le_trans le (h.later k member)
  same := h.same

/-- It is kept when calls that did not begin before were made again meanwhile. -/
theorem noting (h : Confined key pos o o') {before : List (Nat × Nat)} (later : ∀ k ∈ before, pos ≤ k.2) :
    Confined key pos (o.noting before) (o'.noting before) where
  forward stop same := h.forward stop (stop?_noting o before ▸ same)
  later k member := by
    rcases again_noting o before with same | same
    · exact h.later k (same ▸ member)
    · rcases List.mem_append.1 (same ▸ member) with old | new
      · exact later k old
      · exact h.later k new
  same settled unaware := by
    have settled := (settled_noting o before).1 settled
    rw [again_noting_of_settled settled, List.mem_append, not_or] at unaware
    rw [h.same settled unaware.2]

theorem either {passed passed' : Nat → α → Outcome β} {failed failed' : Outcome β} (h : Confined key pos o o')
    (pass : ∀ stop v, pos ≤ stop → Confined key pos (passed stop v) (passed' stop v))
    (fail : Confined key pos failed failed') :
    Confined key pos (o.either passed failed) (o'.either passed' failed') := by
  cases o with
  | pass stop v again =>
      have whole := (pass stop v (h.forward stop rfl)).noting h.later
      refine ⟨whole.forward, whole.later, fun settled unaware => ?_⟩
      have first := (settled_noting (passed stop v) again).1 settled
      have unaware' := unaware
      rw [Outcome.either, again_noting_of_settled first, List.mem_append, not_or] at unaware'
      rw [h.same trivial unaware'.1]
      exact whole.same settled unaware
  | fail again =>
      have whole := fail.noting h.later
      refine ⟨whole.forward, whole.later, fun settled unaware => ?_⟩
      have first := (settled_noting failed again).1 settled
      have unaware' := unaware
      rw [Outcome.either, again_noting_of_settled first, List.mem_append, not_or] at unaware'
      rw [h.same trivial unaware'.1]
      exact whole.same settled unaware
  | error f => exact unsettled id
  | deep => exact unsettled id

theorem map {f : Nat → α → β} (h : Confined key pos o o') : Confined key pos (o.map f) (o'.map f) :=
  h.either (fun stop v le => .pass le (f stop v)) .fail

/-- An outcome makes finitely many calls again, so there is always one that it does not make. -/
theorem eq_of_settled (h : ∀ key, Confined key pos o o') (settled : o.Settled) : o' = o := by
  obtain ⟨key, unaware⟩ := Infinite.exists_notMem_finset o.again.toFinset
  exact (h key).same settled fun member => unaware (List.mem_toFinset.2 member)

end Confined

end Outcome

namespace Parse

variable {α : Type} {T : String} {key : Nat × Nat} {calls calls' : List OpenCall}

/-- The first parse with some calls under way and the second one with others agree unless the
first one makes the call at `key` again. -/
def Confined (key : Nat × Nat) (calls calls' : List OpenCall) (q q' : Parse α) : Prop :=
  ∀ pos, (q calls pos).Confined key pos (q' calls' pos)

namespace Confined

variable {q q' : Parse (List Capture)}

theorem pass : Confined key calls calls' pass pass := fun pos => .pass (Nat.le_refl pos) []

theorem fail : Confined key calls calls' (fail : Parse α) fail := fun _ => .fail

theorem terminal (t : Terminal) : Confined key calls calls' (terminal T t) (terminal T t) := by
  intro pos
  rw [Parse.terminal, Parse.terminal]
  cases t.sizeAt T pos with
  | none => exact .fail
  | some size => exact .pass (Nat.le_add_right pos size) []

theorem orElse {one one' other other' : Parse α} (h : Confined key calls calls' one one')
    (h' : Confined key calls calls' other other') :
    Confined key calls calls' (one.orElse other) (one'.orElse other') := fun pos =>
  (h pos).either (fun _ v le => .pass le v) (h' pos)

theorem andThen {r r' : Parse (List Capture)} (h : Confined key calls calls' q q')
    (h' : Confined key calls calls' r r') : Confined key calls calls' (q.andThen r) (q'.andThen r') :=
  fun pos => (h pos).either (fun stop _ le => ((h' stop).mono le).map) .fail

theorem lookahead (h : Confined key calls calls' q q') :
    Confined key calls calls' q.lookahead q'.lookahead := fun pos =>
  (h pos).either (fun _ _ _ => .pass (Nat.le_refl pos) []) .fail

theorem notAhead (h : Confined key calls calls' q q') :
    Confined key calls calls' q.notAhead q'.notAhead := fun pos =>
  (h pos).either (fun _ _ _ => .fail) (.pass (Nat.le_refl pos) [])

theorem optional (slots : List Nat) (h : Confined key calls calls' q q') :
    Confined key calls calls' (q.optional slots) (q'.optional slots) := fun pos =>
  (h pos).either (fun _ captures le => .pass le captures) (.pass (Nat.le_refl pos) _)

theorem rounds (least : Nat) (h : Confined key calls calls' q q') (fuel count : Nat) :
    Confined key calls calls' (q.rounds least fuel count) (q'.rounds least fuel count) := by
  induction fuel generalizing count with
  | zero => exact fun _ => .unsettled id
  | succ fuel ih =>
      intro pos
      have ended : (ended least count pos).Confined key pos (Parse.ended least count pos) := by
        rw [Parse.ended]
        split
        · exact .pass (Nat.le_refl pos) []
        · exact .fail
      refine (h pos).either (fun stop captures le => ?_) ended
      split
      · exact ended
      · exact ((ih (count + 1) stop).mono le).map

theorem loop (least : Nat) (h : Confined key calls calls' q q') :
    Confined key calls calls' (q.loop T least) (q'.loop T least) := h.rounds least _ _

theorem modified (required repeated ahead notAhead : Bool) (slots : List Nat)
    (h : Confined key calls calls' q q') :
    Confined key calls calls' (q.modified T required repeated ahead notAhead slots)
      (q'.modified T required repeated ahead notAhead slots) := by
  rw [Parse.modified, Parse.modified]
  have counted : Confined key calls calls'
      (if repeated then q.loop T (if required then 1 else 0) else if required then q else q.optional slots)
      (if repeated then q'.loop T (if required then 1 else 0)
        else if required then q' else q'.optional slots) := by
    split
    · exact h.loop _
    · split
      · exact h
      · exact h.optional slots
  split
  · exact counted.lookahead
  · split
    · exact counted.notAhead
    · exact counted

theorem captured (slot : Nat) (h : Confined key calls calls' q q') :
    Confined key calls calls' (q.captured T slot) (q'.captured T slot) := fun pos => (h pos).map

variable {r r' : Parse Value}

theorem recorded (slot : Nat) (h : Confined key calls calls' r r') :
    Confined key calls calls' (r.recorded slot) (r'.recorded slot) := fun pos => (h pos).map

theorem silent (h : Confined key calls calls' r r') : Confined key calls calls' r.silent r'.silent :=
  fun pos => (h pos).map

end Confined

end Parse

/-! ## Parts of a grammar -/

section

variable {T : String} {call call' : Nat → Parse Value} {key : Nat × Nat} {calls calls' : List OpenCall}
  (confined : ∀ ruleset, Parse.Confined key calls calls' (call ruleset) (call' ruleset))

include confined

mutual

theorem Matcher.parse_confined :
    ∀ m : Matcher, Parse.Confined key calls calls' (m.parse T call) (m.parse T call')
  | .literal text _ => .terminal (.literal text)
  | .charClass spec _ => by
      rw [Matcher.parse, Matcher.parse]
      cases Terminal.ofClass? spec with
      | ok t => exact .terminal t
      | error e => exact .fail
  | .any _ => .terminal .any
  | .ref _ none => .fail
  | .ref _ (some ruleset) => (confined ruleset).silent
  | .group patterns => by
      rw [Matcher.parse, Matcher.parse]
      exact Pattern.parse_confined patterns
  | .capture patterns slot => by
      rw [Matcher.parse, Matcher.parse]
      cases Pattern.plainTarget? patterns with
      | some ruleset => exact (confined ruleset).recorded slot
      | none => exact (Pattern.parse_confined patterns).captured slot

theorem Token.parse_confined :
    ∀ ts : List Token, Parse.Confined key calls calls' (Token.parse T call ts) (Token.parse T call' ts)
  | [] => .pass
  | ⟨matcher, required, repeated, ahead, notAhead, _, _⟩ :: rest => by
      rw [Token.parse, Token.parse]
      exact ((Matcher.parse_confined matcher).modified required repeated ahead notAhead _).andThen
        (Token.parse_confined rest)

theorem Pattern.parse_confined :
    ∀ ps : List Pattern, Parse.Confined key calls calls' (Pattern.parse T call ps) (Pattern.parse T call' ps)
  | [] => .fail
  | ⟨tokens, _, _⟩ :: rest => by
      rw [Pattern.parse, Pattern.parse]
      exact (Token.parse_confined tokens).orElse (Pattern.parse_confined rest)

end

theorem Rule.parse_confined (library : Library) (r : Rule) :
    Parse.Confined key calls calls' (r.parse library T call) (r.parse library T call') := by
  intro pos
  refine (Pattern.parse_confined confined r.patterns pos).either (fun stop captures le => ?_) .fail
  split
  · exact .pass le _
  · exact .unsettled fun settled => settled

theorem Rule.parseList_confined (library : Library) (rules : List Rule) :
    Parse.Confined key calls calls' (Rule.parseList library T call rules)
      (Rule.parseList library T call' rules) := by
  induction rules with
  | nil => exact .fail
  | cons r rest ih => exact (Rule.parse_confined confined library r).orElse ih

end

/-! ## Calls -/

/-- The call under way of a ruleset at an offset. -/
def OpenCall.at? (calls : List OpenCall) (key : Nat × Nat) : Option OpenCall :=
  calls.find? fun c => c.ruleset == key.1 && c.start == key.2

/-- No answer ends before its call began. -/
def OpenCall.Forward (calls : List OpenCall) : Prop :=
  ∀ c ∈ calls, ∀ seed, c.answer = some seed → c.start ≤ seed.stop

/-- The second calls under way are the first ones but for that at `key`. -/
structure OpenCall.Lack (key : Nat × Nat) (calls calls' : List OpenCall) : Prop where
  forward : Forward calls
  absent : at? calls key = none → at? calls' key = none
  others : ∀ k ≠ key, at? calls' k = at? calls k

namespace OpenCall

variable {key : Nat × Nat} {calls calls' : List OpenCall}

theorem at?_cons (c : OpenCall) (key : Nat × Nat) :
    at? (c :: calls) key = if (c.ruleset, c.start) = key then some c else at? calls key := by
  rw [at?, List.find?_cons, at?]
  by_cases same : (c.ruleset, c.start) = key
  · subst same
    simp
  · rw [if_neg same]
    have other : (c.ruleset == key.1 && c.start == key.2) = false := by
      rw [Bool.eq_false_iff]
      intro both
      rw [Bool.and_eq_true, beq_iff_eq, beq_iff_eq] at both
      exact same (Prod.ext both.1 both.2)
    rw [other]

theorem Forward.cons (forward : Forward calls) {c : OpenCall}
    (answer : ∀ seed, c.answer = some seed → c.start ≤ seed.stop) : Forward (c :: calls) :=
  List.forall_mem_cons.2 ⟨answer, forward⟩

/-- One more call under way. -/
theorem Lack.cons (lack : Lack key calls calls') {c : OpenCall}
    (answer : ∀ seed, c.answer = some seed → c.start ≤ seed.stop) : Lack key (c :: calls) (c :: calls') where
  forward := lack.forward.cons answer
  absent none := by
    rw [at?_cons] at none ⊢
    split at none
    · cases none
    · rename_i other
      rw [if_neg other]
      exact lack.absent none
  others k other := by
    rw [at?_cons, at?_cons, lack.others k other]

theorem Lack.refl (forward : Forward calls) (key : Nat × Nat) : Lack key calls calls :=
  ⟨forward, fun none => none, fun _ _ => rfl⟩

/-- The calls under way without the newest one. -/
theorem Lack.newest (forward : Forward calls) {c : OpenCall}
    (answer : ∀ seed, c.answer = some seed → c.start ≤ seed.stop) :
    Lack (c.ruleset, c.start) (c :: calls) calls where
  forward := forward.cons answer
  absent none := by
    rw [at?_cons, if_pos rfl] at none
    cases none
  others k other := by rw [at?_cons, if_neg (Ne.symm other)]

end OpenCall

namespace Parse

variable {T : String} {key : Nat × Nat} {calls calls' : List OpenCall} {pos : Nat}

theorem grow_confined {attempt attempt' : Option Seed → Outcome Value}
    (attempts : ∀ best : Seed, pos ≤ best.stop →
      (attempt (some best)).Confined key pos (attempt' (some best))) (fuel : Nat) {best : Seed}
    (forward : pos ≤ best.stop) : (grow attempt fuel best).Confined key pos (grow attempt' fuel best) := by
  induction fuel generalizing best with
  | zero => exact .unsettled id
  | succ fuel ih =>
      refine (attempts best forward).either (fun stop v le => ?_) (.pass forward _)
      split
      · exact ih le
      · exact .pass forward _

open OpenCall in
/-- A call that is under way gives its answer. -/
theorem call_under {ruleset : Nat} {rules : Parse Value} {c : OpenCall}
    (found : at? calls (ruleset, pos) = some c) :
    call T ruleset rules calls pos =
      c.answer.elim (.fail [(ruleset, pos)]) fun seed => .pass seed.stop seed.value [(ruleset, pos)] := by
  rw [at?] at found
  rw [call, found]
  cases answer : c.answer with
  | none => simp only [answer, Option.elim_none]
  | some seed => simp only [answer, Option.elim_some]

open OpenCall in
/-- A call that is not under way tries its rules. -/
theorem call_fresh {ruleset : Nat} {rules : Parse Value} (found : at? calls (ruleset, pos) = none) :
    call T ruleset rules calls pos =
      match rules (⟨ruleset, pos, none⟩ :: calls) pos with
      | .pass stop v again =>
        if (ruleset, pos) ∈ again then
          (grow (fun answer => rules (⟨ruleset, pos, answer⟩ :: calls) pos) (T.utf8ByteSize + 1)
            ⟨v, stop⟩).noting again
        else .pass stop v again
      | o => o := by
  rw [at?] at found
  cases tried : rules (⟨ruleset, pos, none⟩ :: calls) pos <;> simp only [call, found, tried]

open OpenCall in
/-- The answer of a call that is under way, which may be the one at `key`. -/
theorem call_under_confined {ruleset : Nat} {rules rules' : Parse Value} {c : OpenCall}
    (found : at? calls (ruleset, pos) = some c) (lack : Lack key calls calls') :
    (call T ruleset rules calls pos).Confined key pos (call T ruleset rules' calls' pos) := by
  have start : c.start = pos := by
    have is := List.find?_some found
    simp only [Bool.and_eq_true, beq_iff_eq] at is
    exact is.2
  have forward := lack.forward c (List.mem_of_find?_eq_some found)
  have later : ∀ k ∈ [(ruleset, pos)], pos ≤ k.2 := fun k member =>
    Nat.le_of_eq (congrArg Prod.snd (List.mem_singleton.1 member)).symm
  have others : key ∉ [(ruleset, pos)] →
      call T ruleset rules' calls' pos = call T ruleset rules calls pos := by
    intro unaware
    have other : (ruleset, pos) ≠ key := fun is => unaware (is ▸ List.mem_singleton_self _)
    rw [call_under ((lack.others _ other).trans found), call_under found]
  rw [call_under found] at others ⊢
  cases answer : c.answer with
  | some seed =>
      simp only [answer, Option.elim_some] at others ⊢
      refine ⟨?_, later, fun _ => others⟩
      rintro _ ⟨⟩
      exact start ▸ forward seed answer
  | none =>
      simp only [answer, Option.elim_none] at others ⊢
      exact ⟨fun _ same => (nomatch same), later, fun _ => others⟩

open OpenCall in
/-- A call that is not under way, when its rules keep this with whatever result the call has. -/
theorem call_fresh_confined {ruleset : Nat} {rules rules' : Parse Value}
    (found : at? calls (ruleset, pos) = none) (found' : at? calls' (ruleset, pos) = none)
    (attempts : ∀ answer : Option Seed, (∀ seed, answer = some seed → pos ≤ seed.stop) →
      (rules (⟨ruleset, pos, answer⟩ :: calls) pos).Confined key pos
        (rules' (⟨ruleset, pos, answer⟩ :: calls') pos)) :
    (call T ruleset rules calls pos).Confined key pos (call T ruleset rules' calls' pos) := by
  rw [call_fresh found, call_fresh found']
  have first := attempts none nofun
  cases outcome : rules (⟨ruleset, pos, none⟩ :: calls) pos with
  | pass stop v again =>
      rw [outcome] at first
      by_cases recursive : (ruleset, pos) ∈ again
      · have grown : (grow (fun answer => rules (⟨ruleset, pos, answer⟩ :: calls) pos)
            (T.utf8ByteSize + 1) ⟨v, stop⟩).Confined key pos
            (grow (fun answer => rules' (⟨ruleset, pos, answer⟩ :: calls') pos)
              (T.utf8ByteSize + 1) ⟨v, stop⟩) :=
          grow_confined (fun best le => attempts (some best) fun _ is => Option.some.inj is ▸ le) _
            (first.forward stop rfl)
        have whole := grown.noting first.later
        dsimp only
        rw [if_pos recursive]
        refine ⟨whole.forward, whole.later, fun settled unaware => ?_⟩
        have known := unaware
        rw [Outcome.again_noting_of_settled ((Outcome.settled_noting _ again).1 settled),
          List.mem_append, not_or] at known
        rw [first.same trivial known.1]
        dsimp only
        rw [if_pos recursive]
        exact whole.same settled unaware
      · dsimp only
        rw [if_neg recursive]
        refine ⟨first.forward, first.later, fun settled unaware => ?_⟩
        rw [first.same settled unaware]
        dsimp only
        rw [if_neg recursive]
  | fail again =>
      rw [outcome] at first
      refine ⟨first.forward, first.later, fun settled unaware => ?_⟩
      rw [first.same settled unaware]
  | error f => exact .unsettled id
  | deep => exact .unsettled id

open OpenCall in
/-- A call turns out as it does when another one is not under way, unless it makes that one
again. -/
theorem call_confined {ruleset : Nat} {rules rules' : Parse Value}
    (confined : ∀ calls calls', Lack key calls calls' → Confined key calls calls' rules rules')
    (lack : Lack key calls calls') :
    Confined key calls calls' (call T ruleset rules) (call T ruleset rules') := by
  intro pos
  cases found : at? calls (ruleset, pos) with
  | some c => exact call_under_confined found lack
  | none =>
      have found' : at? calls' (ruleset, pos) = none := by
        by_cases other : (ruleset, pos) = key
        · subst other
          exact lack.absent found
        · exact (lack.others _ other).trans found
      exact call_fresh_confined found found' fun answer forward => confined _ _ (lack.cons forward) pos

end Parse

open OpenCall in
/-- What a call does not make again has no influence on it, nor has the depth of calls as long
as it is not exhausted. -/
theorem Grammar.call_confined (g : Grammar) (library : Library) (T : String) {key : Nat × Nat}
    {depth deeper : Nat} (le : depth ≤ deeper) (ruleset : Nat) {calls calls' : List OpenCall}
    (lack : Lack key calls calls') :
    Parse.Confined key calls calls' (g.call library T depth ruleset) (g.call library T deeper ruleset) := by
  induction depth generalizing deeper ruleset calls calls' with
  | zero =>
      have deep (rules : Parse Value) : ∀ calls calls', Lack key calls calls' →
          Parse.Confined key calls calls' (fun _ _ => .deep) rules := fun _ _ _ _ => .unsettled id
      cases deeper with
      | zero => exact Parse.call_confined (deep _) lack
      | succ deeper => exact Parse.call_confined (deep _) lack
  | succ depth ih =>
      obtain ⟨deeper, rfl⟩ : ∃ k, deeper = k + 1 := ⟨deeper - 1, by omega⟩
      refine Parse.call_confined (fun calls calls' lack => ?_) lack
      exact Rule.parseList_confined (fun ruleset => ih (by omega) ruleset lack) library _

end PegFlow
