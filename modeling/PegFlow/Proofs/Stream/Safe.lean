/-
# PegFlow.Proofs.Stream.Safe -- no bound is ever broken

No stream of a parser ever answers with a defect, and every op that is run finds all that it
reads: indices in range, stacks that are not empty, and offsets on boundaries of the text so
far (`Parser.never_defect`). What has to be granted is that fewer lookaheads are open at once
than the machine can count (`Shallow`); then the count never runs out either.
-/
import PegFlow.Proofs.Stream.Traced

namespace PegFlow

set_option autoImplicit false

open Text Machine

variable {g : AnnotatedGrammar} {library : Library}

/-- A course over a buffer in which lookaheads can be counted comes to no defect. -/
theorem Course.no_defect {past : List Moment} {now : Moment} (linked : g.Linked)
    (configured : (Program.ofGrammar g library).Configured) (course : Course (Program.ofGrammar g library) past now)
    (fits : now.buffer.length ≤ Buffer.maxOffset) (shallow : Shallow g (Program.ofGrammar g library) now.buffer)
    (d : Defect) (t : State) : now.turn (Program.ofGrammar g library) ≠ .fault (.internal d) t := by
  intro turn
  obtain ⟨P, shows, follows⟩ := course.follows linked
  have fits := shows.length_eq ▸ fits
  exact (step_blameless shows fits configured ((follows fits).inRange linked) (shallow.counted course rfl) _ _ turn).2

/-- Where lookaheads can be counted a stream keeps no defect. -/
theorem Stream.Reachable.unbroken {parser : Parser} {s : Stream} {e : ParseError}
    (program : parser.program = Program.ofGrammar g library) (linked : g.Linked)
    (configured : (Program.ofGrammar g library).Configured) (reachable : Reachable parser s)
    (error : s.error = some e) (shallow : Shallow g (Program.ofGrammar g library) s.buffer) (d : Defect) :
    e.fault ≠ .internal d := by
  intro defect
  obtain ⟨past, now, course, buffer, turn⟩ := (reachable.traced program linked).broken e d error defect
  have fits := (reachable.sane program linked).length_le
  rw [defect] at turn
  rw [← buffer] at fits shallow
  exact course.no_defect linked configured fits shallow d s.state turn

end PegFlow
