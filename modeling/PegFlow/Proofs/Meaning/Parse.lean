/-
# PegFlow.Proofs.Meaning.Parse -- what parts of a grammar mean

A `Parse` says how an attempt to match a text from an offset turns out, given the
calls of rulesets that are under way. The meanings of the parts of a grammar are put
together by the operations here: choice, sequence, repetition, looking ahead and
captures.

A ruleset that is called again where it is already called gets the answer of that
call. An outcome lists the calls to which this happened, because such a call is left
recursive and tries its rules again.
-/
import PegFlow.Machine.State
import PegFlow.Proofs.Meaning.Terminal

namespace PegFlow

set_option autoImplicit false

/-- A call under way: its ruleset, where it began, and what it gives when it is made
again; without an answer it fails. -/
structure OpenCall where
  ruleset : Nat
  start : Nat
  answer : Option Seed

/-- How an attempt to match turns out: it ends at `stop` with a value, it fails, or a
template gives a fault. `again` are the calls under way that were made again. An attempt
that exhausts the depth of calls it was given is `deep`. -/
inductive Outcome (α : Type) where
  | pass (stop : Nat) (value : α) (again : List (Nat × Nat))
  | fail (again : List (Nat × Nat))
  | error (f : Fault)
  | deep

namespace Outcome

variable {α β : Type}

/-- The outcome after some calls were made again. -/
def noting (again : List (Nat × Nat)) : Outcome α → Outcome α
  | .pass stop v more => .pass stop v (again ++ more)
  | .fail more => .fail (again ++ more)
  | .error f => .error f
  | .deep => .deep

/-- Go on after a match or after a failure. -/
def either (o : Outcome α) (passed : Nat → α → Outcome β) (failed : Outcome β) : Outcome β :=
  match o with
  | .pass stop v again => (passed stop v).noting again
  | .fail again => failed.noting again
  | .error f => .error f
  | .deep => .deep

/-- Change the value of a match. -/
def map (f : Nat → α → β) (o : Outcome α) : Outcome β :=
  o.either (fun stop v => .pass stop (f stop v) []) (.fail [])

/-- Where a match ended, if it is one. -/
def stop? : Outcome α → Option Nat
  | .pass stop _ _ => some stop
  | _ => none

section

variable (again before : List (Nat × Nat)) (stop : Nat) (v : α) (f : Fault) (o : Outcome α)
  (passed : Nat → α → Outcome β) (failed : Outcome β)

@[simp] theorem noting_pass : (pass stop v again).noting before = pass stop v (before ++ again) := rfl

@[simp] theorem noting_fail : (fail again : Outcome α).noting before = fail (before ++ again) := rfl

@[simp] theorem noting_error : (error f : Outcome α).noting before = error f := rfl

@[simp] theorem noting_deep : (deep : Outcome α).noting before = deep := rfl

@[simp] theorem either_pass : (pass stop v again).either passed failed = (passed stop v).noting again := rfl

@[simp] theorem either_fail : (fail again).either passed failed = failed.noting again := rfl

@[simp] theorem either_error : (error f).either passed failed = error f := rfl

@[simp] theorem either_deep : deep.either passed failed = deep := rfl

@[simp] theorem noting_nil : o.noting [] = o := by
  cases o <;> rfl

@[simp] theorem noting_noting : (o.noting again).noting before = o.noting (before ++ again) := by
  cases o <;> simp

/-- What was made again before is noted after whatever follows. -/
@[simp] theorem either_noting :
    (o.noting before).either passed failed = (o.either passed failed).noting before := by
  cases o <;> simp

end

theorem stop?_eq_some_iff {o : Outcome α} {stop : Nat} :
    o.stop? = some stop ↔ ∃ v again, o = .pass stop v again := by
  cases o <;> simp [stop?]

end Outcome

/-- An attempt to match from an offset with calls under way. -/
abbrev Parse (α : Type) := List OpenCall → Nat → Outcome α

/-- A null in each slot. -/
def Capture.nulls (slots : List Nat) : List Capture := slots.map fun slot => ⟨slot, .null⟩

namespace Parse

variable {α : Type}

/-- Match nothing. -/
def pass : Parse (List Capture) := fun _ pos => .pass pos [] []

/-- Never match. -/
def fail : Parse α := fun _ _ => .fail []

/-- Match a terminal. -/
def terminal (T : String) (t : Terminal) : Parse (List Capture) := fun _ pos =>
  match t.sizeAt T pos with
  | some size => .pass (pos + size) [] []
  | none => .fail []

/-- The first that matches. -/
def orElse (one other : Parse α) : Parse α := fun calls pos =>
  (one calls pos).either (fun stop v => .pass stop v []) (other calls pos)

/-- One after the other. -/
def andThen (one other : Parse (List Capture)) : Parse (List Capture) := fun calls pos =>
  (one calls pos).either
    (fun middle first => (other calls middle).map fun _ second => first ++ second) (.fail [])

/-- Match nothing where the body would match. -/
def lookahead (body : Parse (List Capture)) : Parse (List Capture) := fun calls pos =>
  (body calls pos).either (fun _ _ => .pass pos [] []) (.fail [])

/-- Match nothing where the body would fail. -/
def notAhead (body : Parse (List Capture)) : Parse (List Capture) := fun calls pos =>
  (body calls pos).either (fun _ _ => .fail []) (.pass pos [] [])

/-- Match the body if it matches, and else nothing, with nulls in its slots. -/
def optional (slots : List Nat) (body : Parse (List Capture)) : Parse (List Capture) :=
  fun calls pos =>
    (body calls pos).either (fun stop captures => .pass stop captures [])
      (.pass pos (Capture.nulls slots) [])

/-- The end of a repetition after `count` rounds. -/
def ended (least count pos : Nat) : Outcome (List Capture) :=
  if least ≤ count then .pass pos [] [] else .fail []

/-- Match the body as often as it matches something, `count` rounds having matched
before. -/
def rounds (least : Nat) (body : Parse (List Capture)) : (fuel count : Nat) → Parse (List Capture)
  | 0, _ => fun _ _ => .deep
  | fuel + 1, count => fun calls pos =>
    (body calls pos).either
      (fun stop captures =>
        if stop = pos then ended least count pos
        else (rounds least body fuel (count + 1) calls stop).map fun _ more => captures ++ more)
      (ended least count pos)

/-- Match the body as often as it matches something, and at least `least` times. Each
round takes an octet of the text or more. -/
def loop (T : String) (least : Nat) (body : Parse (List Capture)) : Parse (List Capture) :=
  rounds least body (T.utf8ByteSize + 1) 0

/-- Record the text that the body matches. -/
def captured (T : String) (slot : Nat) (body : Parse (List Capture)) : Parse (List Capture) :=
  fun calls pos =>
    (body calls pos).map fun stop captures =>
      captures ++ [⟨slot, .string (Text.between T pos stop)⟩]

/-- Record the output of a ruleset. -/
def recorded (slot : Nat) (body : Parse Value) : Parse (List Capture) := fun calls pos =>
  (body calls pos).map fun _ v => [⟨slot, v⟩]

/-- Leave the output of a ruleset unused. -/
def silent (body : Parse Value) : Parse (List Capture) := fun calls pos =>
  (body calls pos).map fun _ _ => []

/-- How often and in which way a token matches. -/
def modified (T : String) (required repeated ahead notAhead : Bool) (slots : List Nat)
    (body : Parse (List Capture)) : Parse (List Capture) :=
  let counted :=
    if repeated then body.loop T (if required then 1 else 0)
    else if required then body
    else body.optional slots
  if ahead then counted.lookahead
  else if notAhead then counted.notAhead
  else counted

/-- Try again while the result gets longer, the call being answered with the best result
so far. -/
def grow (attempt : Option Seed → Outcome Value) : (fuel : Nat) → Seed → Outcome Value
  | 0, _ => .deep
  | fuel + 1, best =>
    (attempt (some best)).either
      (fun stop v => if best.stop < stop then grow attempt fuel ⟨v, stop⟩
        else .pass best.stop best.value [])
      (.pass best.stop best.value [])

/-- Call a ruleset whose rules are `rules`. A call that is under way already gives its
answer; a new one tries the rules, and tries them again if it was made again meanwhile. -/
def call (T : String) (ruleset : Nat) (rules : Parse Value) : Parse Value := fun calls pos =>
  match calls.find? fun c => c.ruleset == ruleset && c.start == pos with
  | some c =>
    match c.answer with
    | some seed => .pass seed.stop seed.value [(ruleset, pos)]
    | none => .fail [(ruleset, pos)]
  | none =>
    let attempt := fun answer => rules (⟨ruleset, pos, answer⟩ :: calls) pos
    match attempt none with
    | .pass stop v again =>
      if (ruleset, pos) ∈ again then (grow attempt (T.utf8ByteSize + 1) ⟨v, stop⟩).noting again
      else .pass stop v again
    | o => o

end Parse

end PegFlow
