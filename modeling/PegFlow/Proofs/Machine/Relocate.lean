/-
# PegFlow.Proofs.Machine.Relocate -- a run of code that was moved

When the ops of one program are those of another one at other places, and calls lead to
the same entries, a step of the one is a step of the other at the other place: the state
differs only in where its calls go on (`step_relocate`). This is a renaming that changes places
alone.
-/
import PegFlow.Proofs.Machine.Control
import PegFlow.Proofs.Machine.Rename

namespace PegFlow

set_option autoImplicit false

/-- The frame with other places to go on at. -/
def Frame.relocate (μ : Nat → Nat) (f : Frame) : Frame := { f with pass := μ f.pass, fail := μ f.fail }

/-- The state with other places for its calls to go on at. -/
def State.relocate (μ : Nat → Nat) (s : State) : State :=
  { s with frames := s.frames.map (Frame.relocate μ), pending := s.pending.map μ }

/-- The turn of a step at another place. -/
def Progress.relocate (μ : Nat → Nat) : Progress → Progress
  | .next op s => .next (μ op) (s.relocate μ)
  | .halt s => .halt (s.relocate μ)
  | .fault f s => .fault f (s.relocate μ)

/-- The ops of `q` are at other places in `p`, and what they need is the same. -/
structure Program.Moved (μ : Nat → Nat) (q p : Program) : Prop where
  ops : ∀ (op : Nat) (o : Op), q.ops[op]? = some o → p.ops[μ op]? = some (o.relocate μ)
  entries : p.entries = q.entries
  fixed : ∀ (ruleset entry : Nat), q.entries[ruleset]? = some entry → μ entry = entry
  rules : p.rules = q.rules
  terminals : p.terminals = q.terminals
  library : p.library = q.library

namespace Renaming

/-- The renaming that gives other places to ops and leaves all else as it is. -/
def places (μ : Nat → Nat) : Renaming := { op := μ }

variable (μ : Nat → Nat)

theorem rename_op (o : Op) : o.rename (places μ) = o.relocate μ := by
  cases o <;> rfl

theorem rename_state (s : State) : s.rename (places μ) = s.relocate μ := by
  have expected : s.expected.map (places μ).terminal = s.expected := List.map_id s.expected
  rw [State.rename, expected]
  rfl

theorem rename_progress (turn : Progress) : turn.rename (places μ) = turn.relocate μ := by
  cases turn with
  | next op s => rw [Progress.rename, Progress.relocate, rename_state, places]
  | halt s => rw [Progress.rename, Progress.relocate, rename_state]
  | fault f s => rw [Progress.rename, Progress.relocate, rename_state]

end Renaming

/-- Code that was moved is code with other places for its ops. -/
theorem Program.Moved.renamed {μ : Nat → Nat} {q p : Program} (moved : q.Moved μ p) :
    q.Renamed (.places μ) p where
  ops op o held := by
    rw [Renaming.rename_op]
    exact moved.ops op o held
  entries ruleset := by
    rw [moved.entries]
    show q.entries[ruleset]? = q.entries[ruleset]?.map μ
    cases found : q.entries[ruleset]? with
    | none => rfl
    | some entry => rw [Option.map_some, moved.fixed ruleset entry found]
  rules rule := by
    rw [moved.rules]
    rfl
  terminals id := by
    rw [moved.terminals]
    rfl
  library := moved.library
  rulesetsDistinct := Function.injective_id
  terminalsDistinct := Function.injective_id

/-- A step at the other place is the step, at the other place. -/
theorem Machine.step_relocate {μ : Nat → Nat} {q p : Program} (moved : q.Moved μ p) (b : Buffer) (s : State)
    {op : Nat} {o : Op} (held : q.ops[op]? = some o) :
    step p b (μ op) (s.relocate μ) = (step q b op s).relocate μ := by
  have renamed := step_rename moved.renamed b s held
  rwa [Renaming.rename_state, Renaming.rename_progress] at renamed

end PegFlow
