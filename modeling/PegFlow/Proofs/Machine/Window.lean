/-
# PegFlow.Proofs.Machine.Window -- one step over a window of the input

A step in range over a buffer that shows a text does what it does over every whole text
that begins with it (`step_window`). There are two exceptions: an open buffer may ask for
more text, and then the op is left to be run again, and text below the window is no
longer held.
-/
import PegFlow.Proofs.Machine.Path
import PegFlow.Proofs.Meaning.Terminal
import PegFlow.Proofs.Template.Window

namespace PegFlow.Machine

set_option autoImplicit false

open Text

section

variable {p : Program} {b : Buffer} {P more : String} {op : Nat} {s : State}

/-- Stop for more text; `op` is run again when there is some. -/
def Suspends (b : Buffer) (op : Nat) (s : State) (turn : Progress) : Prop :=
  b.closed = false ∧ turn = .halt { s with status := .waiting, pending := some op }

/-- Stop because text is needed again that is no longer held. -/
def Frees (b : Buffer) (turn : Progress) : Prop :=
  0 < b.start ∧ ∃ offset retainedFrom s', turn = .fault (.inputFreed offset retainedFrom) s'

/-- The text between two boundaries is read from the window as it is from the whole, or it
is no longer held. -/
theorem substrExact_window (shows : b.Shows P) (fits : (P ++ more).utf8ByteSize ≤ Buffer.maxOffset)
    {i j : Nat} (first : IsBoundary P i) (last : IsBoundary P j) (le : i ≤ j) :
    b.substrExact i (j - i) = (Buffer.complete (P ++ more)).substrExact i (j - i) ∨
      (0 < b.start ∧ b.substrExact i (j - i) = .error (.inputFreed i b.start)) := by
  have short : P.utf8ByteSize ≤ Buffer.maxOffset := by
    rw [String.utf8ByteSize_append] at fits
    omega
  have whole := (Buffer.shows_complete (P ++ more)).substrExact_eq fits (first.append more)
    (last.append more) le (by rw [Buffer.complete_start]; exact Nat.zero_le i)
  rw [whole, between_append first last le more]
  exact shows.substrExact_cases short first last le

theorem testTerminal_window (shows : b.Shows P) (whole : b.closed = true → more = "")
    (boundary : IsBoundary P s.pos) {id pass fail : Nat} (lt : id < p.terminals.size) :
    State.testTerminal p b s op id pass fail =
        State.testTerminal p (Buffer.complete (P ++ more)) s op id pass fail ∨
      Suspends b op s (State.testTerminal p b s op id pass fail) ∨
      Frees b (State.testTerminal p b s op id pass fail) := by
  have found : p.terminals[id]? = some p.terminals[id] := Array.getElem?_eq_getElem lt
  simp only [State.testTerminal, found]
  generalize p.terminals[id] = t
  by_cases low : b.start ≤ s.pos
  · have wholly := t.matchAt_agrees (Buffer.shows_complete (P ++ more))
      (by rw [Buffer.complete_start]; exact Nat.zero_le s.pos) (boundary.append more) (fun _ => rfl)
    rw [String.append_empty] at wholly
    rcases t.matchAt_agrees shows low boundary whole with here | ⟨here, none⟩ | ⟨here, isOpen⟩
    · rcases wholly with there | ⟨there, none⟩ | ⟨-, isOpen⟩
      · exact Or.inl (by rw [here, there])
      · exact Or.inl (by rw [here, there, none])
      · rw [Buffer.complete_closed] at isOpen
        cases isOpen
    · rcases wholly with there | ⟨there, -⟩ | ⟨-, isOpen⟩
      · exact Or.inl (by rw [here, there, none])
      · exact Or.inl (by rw [here, there])
      · rw [Buffer.complete_closed] at isOpen
        cases isOpen
    · exact Or.inr (Or.inl ⟨isOpen, by rw [here]⟩)
  · refine Or.inr (Or.inr ⟨by omega, s.pos, b.start, s, ?_⟩)
    rw [t.matchAt_freed (by omega)]
    rfl

theorem ruleOutput_window (shows : b.Shows P) (fits : (P ++ more).utf8ByteSize ≤ Buffer.maxOffset)
    {scope : Scope} (input : scope.input = Buffer.complete (P ++ more)) (first : IsBoundary P scope.start)
    (last : IsBoundary P scope.stop) (le : scope.start ≤ scope.stop) (template : Option Template) :
    FreedOr (0 < b.start) (State.ruleOutput (scope.over b) template)
      (State.ruleOutput scope template) := by
  have text : FreedOr (0 < b.start) (scope.over b).matchedText scope.matchedText := by
    rcases substrExact_window shows fits first last le with same | ⟨evicted, freed⟩
    · refine Or.inl ?_
      simp only [Scope.matchedText, Scope.over, input, same]
    · refine Or.inr ⟨evicted, scope.start, b.start, ?_⟩
      simp only [Scope.matchedText, Scope.over, freed, Fault.ofRead]
  cases template with
  | none => exact text
  | some t => exact Template.eval_freedOr text t

theorem giveOutput_window (shows : b.Shows P) (fits : (P ++ more).utf8ByteSize ≤ Buffer.maxOffset)
    {f : Frame} {rest : List Frame} (frames : s.frames = f :: rest) (first : IsBoundary P f.start)
    (last : IsBoundary P s.pos) (le : f.start ≤ s.pos) (rule next : Nat) :
    State.giveOutput p b s rule next = State.giveOutput p (Buffer.complete (P ++ more)) s rule next ∨
      Frees b (State.giveOutput p b s rule next) := by
  simp only [State.giveOutput, frames]
  cases p.rules[rule]? with
  | none => exact Or.inl rfl
  | some r =>
      dsimp only
      by_cases past : s.captures.size < f.captureBase
      · exact Or.inl (by rw [if_pos past, if_pos past])
      · rw [if_neg past, if_neg past]
        generalize (s.captures.extract f.captureBase s.captures.size).toList = captures
        generalize hu : s.keepCaptures f.captureBase = u
        have pos : u.pos = s.pos := by rw [← hu]; rfl
        rw [← pos] at last le
        have scope : (u.scope p (Buffer.complete (P ++ more)) f.start r.layout captures).over b =
            u.scope p b f.start r.layout captures := rfl
        have window := ruleOutput_window shows fits
          (rfl : (u.scope p (Buffer.complete (P ++ more)) f.start r.layout captures).input = _) first
          last le r.template
        rw [scope] at window
        rcases window with same | ⟨evicted, offset, retainedFrom, freed⟩
        · exact Or.inl (by rw [same])
        · exact Or.inr ⟨evicted, offset, retainedFrom, u, by rw [freed]⟩

theorem endCapture_window (shows : b.Shows P) (fits : (P ++ more).utf8ByteSize ≤ Buffer.maxOffset)
    {start : Nat} {rest : List Nat} (starts : s.captureStarts = start :: rest) (first : IsBoundary P start)
    (last : IsBoundary P s.pos) (le : start ≤ s.pos) (slot : Nat) (ofRule : Bool) (next : Nat) :
    State.endCapture b s slot ofRule next =
        State.endCapture (Buffer.complete (P ++ more)) s slot ofRule next ∨
      Frees b (State.endCapture b s slot ofRule next) := by
  simp only [State.endCapture, starts]
  cases ofRule with
  | true => exact Or.inl rfl
  | false =>
      rcases substrExact_window shows fits first last le with same | ⟨evicted, freed⟩
      · exact Or.inl (by rw [same])
      · refine Or.inr ⟨evicted, start, b.start, { s with captureStarts := rest }, ?_⟩
        rw [freed]
        rfl

/-- What a step over a window does, it does over every whole text that goes on from there,
unless it asks for more text or for text that is no longer held. -/
theorem step_window (shows : b.Shows P) (fits : (P ++ more).utf8ByteSize ≤ Buffer.maxOffset)
    (whole : b.closed = true → more = "") (range : InRange p P op s) :
    step p b op s = step p (Buffer.complete (P ++ more)) op s ∨ Suspends b op s (step p b op s) ∨
      Frees b (step p b op s) := by
  rw [InRange] at range
  cases found : p.ops[op]? with
  | none =>
      rw [found] at range
      exact range.elim
  | some o =>
      rw [found] at range
      simp only [step, found]
      cases o with
      | terminal id pass fail => exact testTerminal_window shows whole range.2 range.1
      | captureEnd slot ofRule next =>
          obtain ⟨start, rest, starts, le, first, last⟩ := range
          exact (endCapture_window shows fits starts first last le slot ofRule next).imp_right Or.inr
      | output rule next =>
          obtain ⟨-, f, rest, frames, -, le, first, last⟩ := range
          exact (giveOutput_window shows fits frames first last le rule next).imp_right Or.inr
      | _ => exact Or.inl rfl

end

end PegFlow.Machine
