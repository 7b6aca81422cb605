/-
# PegFlow.Proofs.Machine.Sound -- a step in range breaks no bound

A step in range over a window stops at a fault only because of a template, or because text
is needed that was let go, or because so many lookaheads are open that they cannot be
counted. Templates of a configured program cause no defect, so but for that count such a
step breaks no bound of the machine (`step_blameless`).
-/
import PegFlow.Proofs.Machine.Shape
import PegFlow.Proofs.Machine.Window
import PegFlow.Proofs.Template.Checked

namespace PegFlow.Machine

set_option autoImplicit false

open Text

/-- If the step stops at a fault then at a boundary, and at a fault that is possible. -/
def Blameless (b : Buffer) (P : String) (turn : Progress) : Prop :=
  ∀ f t, turn = .fault f t → IsBoundary P t.pos ∧ f.Possible (0 < b.start)

namespace Blameless

variable {b : Buffer} {P : String} {t : State}

theorem next {op : Nat} : Blameless b P (.next op t) := fun _ _ h => nomatch h

theorem halt : Blameless b P (.halt t) := fun _ _ h => nomatch h

theorem fault {f : Fault} (boundary : IsBoundary P t.pos) (possible : f.Possible (0 < b.start)) :
    Blameless b P (.fault f t) := by
  rintro _ _ ⟨⟩
  exact ⟨boundary, possible⟩

end Blameless

variable {p : Program} {b : Buffer} {P : String} {op : Nat} {s : State}

theorem testTerminal_blameless (shows : b.Shows P) (boundary : IsBoundary P s.pos)
    {id pass fail : Nat} (lt : id < p.terminals.size) :
    Blameless b P (State.testTerminal p b s op id pass fail) := by
  have found : p.terminals[id]? = some p.terminals[id] := Array.getElem?_eq_getElem lt
  simp only [State.testTerminal, found]
  generalize p.terminals[id] = t
  by_cases low : b.start ≤ s.pos
  · rcases t.matchAt_agrees shows low boundary (fun _ => rfl) with here | ⟨here, -⟩ | ⟨here, -⟩
    · rw [here]
      cases t.sizeAt (P ++ "") s.pos with
      | none => exact .next
      | some size => exact .next
    · rw [here]
      exact .next
    · rw [here]
      exact .halt
  · rw [t.matchAt_freed (by omega)]
    have evicted : 0 < b.start := by omega
    exact .fault boundary evicted

theorem matchedText_sound (shows : b.Shows P) (fits : P.utf8ByteSize ≤ Buffer.maxOffset)
    {scope : Scope} (input : scope.input = b) (first : IsBoundary P scope.start)
    (last : IsBoundary P scope.stop) (le : scope.start ≤ scope.stop) :
    Sound (0 < b.start) scope.matchedText := by
  rw [Scope.matchedText, input]
  rcases shows.substrExact_cases fits first last le with read | ⟨evicted, freed⟩
  · rw [read]
    exact .ok _
  · rw [freed]
    exact .error evicted

theorem giveOutput_blameless (shows : b.Shows P) (fits : P.utf8ByteSize ≤ Buffer.maxOffset)
    (configured : p.Configured) {f : Frame} {rest : List Frame} (frames : s.frames = f :: rest)
    {rule : Nat} (lt : rule < p.rules.size) (base : f.captureBase ≤ s.captures.size)
    (first : IsBoundary P f.start) (last : IsBoundary P s.pos) (le : f.start ≤ s.pos) (next : Nat) :
    Blameless b P (State.giveOutput p b s rule next) := by
  have found : p.rules[rule]? = some p.rules[rule] := Array.getElem?_eq_getElem lt
  have member : p.rules[rule] ∈ p.rules := Array.getElem_mem lt
  simp only [State.giveOutput, frames, found, if_neg (Nat.not_lt.2 base)]
  generalize p.rules[rule] = r at member
  generalize (s.captures.extract f.captureBase s.captures.size).toList = captures
  generalize hu : s.keepCaptures f.captureBase = u
  have pos : u.pos = s.pos := by rw [← hu]; rfl
  have text : Sound (0 < b.start) (u.scope p b f.start r.layout captures).matchedText :=
    matchedText_sound shows fits rfl first (pos.symm ▸ last : IsBoundary P u.pos)
      (pos.symm ▸ le : f.start ≤ u.pos)
  have sound : Sound (0 < b.start) (State.ruleOutput (u.scope p b f.start r.layout captures) r.template) := by
    cases template : r.template with
    | none => exact text
    | some t => exact configured r member t template _ rfl _ text
  cases output : State.ruleOutput (u.scope p b f.start r.layout captures) r.template with
  | ok v => exact .next
  | error e => exact .fault (pos.symm ▸ last : IsBoundary P u.pos) (sound e output)

theorem endCapture_blameless (shows : b.Shows P) (fits : P.utf8ByteSize ≤ Buffer.maxOffset)
    {start : Nat} {rest : List Nat} (starts : s.captureStarts = start :: rest) (first : IsBoundary P start)
    (last : IsBoundary P s.pos) (le : start ≤ s.pos) (slot : Nat) (ofRule : Bool) (next : Nat) :
    Blameless b P (State.endCapture b s slot ofRule next) := by
  simp only [State.endCapture, starts]
  cases ofRule with
  | true => exact .next
  | false =>
      rcases shows.substrExact_cases fits first last le with read | ⟨evicted, freed⟩
      · rw [if_neg Bool.false_ne_true, read]
        exact .next
      · rw [if_neg Bool.false_ne_true, freed]
        exact .fault last evicted

theorem leaveLoop_blameless (loops : s.loops ≠ []) (least pass fail : Nat) :
    Blameless b P (s.leaveLoop least pass fail) := by
  obtain ⟨l, rest, loops⟩ := List.exists_cons_of_ne_nil loops
  simp only [State.leaveLoop, loops]
  exact .next

theorem nextRound_blameless (loops : s.loops ≠ []) (body least pass fail : Nat) :
    Blameless b P (s.nextRound body least pass fail) := by
  obtain ⟨l, rest, eq⟩ := List.exists_cons_of_ne_nil loops
  simp only [State.nextRound, eq]
  split
  · exact leaveLoop_blameless (s := s.keepCaptures l.captures) loops least pass fail
  · exact .next

theorem call_blameless {ruleset : Nat} (lt : ruleset < p.entries.size) (pass fail : Nat) :
    Blameless b P (State.call p s ruleset pass fail) := by
  have found : p.entries[ruleset]? = some p.entries[ruleset] := Array.getElem?_eq_getElem lt
  simp only [State.call, found]
  split
  · split <;> exact .next
  · exact .next

theorem leave_blameless {f : Frame} {rest : List Frame} (frames : s.frames = f :: rest)
    (lt : f.ruleset < p.entries.size) : Blameless b P (State.leave p s) := by
  have found : p.entries[f.ruleset]? = some p.entries[f.ruleset] := Array.getElem?_eq_getElem lt
  simp only [State.leave, frames, found]
  split
  · split
    · exact .next
    · split <;> exact .next
  · exact .next

/-- A step in range breaks no bound of the machine but for the count of lookaheads. -/
theorem step_blameless (shows : b.Shows P) (fits : P.utf8ByteSize ≤ Buffer.maxOffset)
    (configured : p.Configured) (range : InRange p P op s) (counted : ¬ Uncounted p op s) :
    Blameless b P (step p b op s) := by
  rw [InRange] at range
  cases found : p.ops[op]? with
  | none =>
      rw [found] at range
      exact range.elim
  | some o =>
      rw [found] at range
      simp only [step, found]
      cases o with
      | commit next =>
          obtain ⟨m, rest, marks⟩ := List.exists_cons_of_ne_nil range
          rw [marks]
          exact .next
      | rollback next =>
          obtain ⟨m, rest, marks⟩ := List.exists_cons_of_ne_nil range
          simp only [State.goBack, marks]
          exact .next
      | lookExit next =>
          obtain ⟨m, rest, marks, -⟩ := range
          have open_ : s.quiet ≠ 0 := fun none => counted ⟨none, next, found⟩
          simp only [State.stopLooking, marks, State.keepCaptures, if_neg open_]
          exact .next
      | loopNext body least pass fail => exact nextRound_blameless range body least pass fail
      | loopExit least pass fail => exact leaveLoop_blameless range least pass fail
      | captureEnd slot ofRule next =>
          obtain ⟨start, rest, starts, le, first, last⟩ := range
          exact endCapture_blameless shows fits starts first last le slot ofRule next
      | captureFail next =>
          obtain ⟨start, rest, starts⟩ := List.exists_cons_of_ne_nil range
          rw [starts]
          exact .next
      | terminal id pass fail => exact testTerminal_blameless shows range.2 range.1
      | call ruleset pass fail => exact call_blameless range pass fail
      | output rule next =>
          obtain ⟨lt, f, rest, frames, base, le, first, last⟩ := range
          exact giveOutput_blameless shows fits configured frames lt base first last le next
      | ret =>
          obtain ⟨f, rest, frames, lt⟩ := range
          exact leave_blameless frames lt
      | retFail =>
          obtain ⟨f, rest, frames, -⟩ := range
          simp only [State.leaveFailed, frames]
          split <;> exact .next
      | accept => exact .halt
      | reject => exact .halt
      | _ => exact .next

end PegFlow.Machine
