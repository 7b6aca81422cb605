/-
# PegFlow.Proofs.Grammar.Order -- rulesets in another order

When the rulesets of an accepted grammar stand in another order, the grammar is accepted too
(`Grammar.Reordered.acceptable_iff`). It has the same terminals in some order
(`Grammar.Reordered.terminals_perm`) and the same rulesets in another order, but for annotations
that say where rulesets and terminals are (`Grammar.Reordered.rulesets_perm`).
-/
import PegFlow.Proofs.Grammar.Acceptable

namespace PegFlow

set_option autoImplicit false

/-- Values of the same computations in another order are the same in another order. -/
theorem Except.perm_of_mapM {ε α β : Type} {f : α → Except ε β} {xs xs' : List α} {ys ys' : List β}
    (perm : xs.Perm xs') (h : xs.mapM f = .ok ys) (h' : xs'.mapM f = .ok ys') : ys.Perm ys' := by
  have injective : Function.Injective (Except.ok : β → Except ε β) := fun _ _ same => Except.ok.inj same
  have mapped := perm.map f
  rw [Except.mapM_eq_ok_iff.1 h, Except.mapM_eq_ok_iff.1 h'] at mapped
  exact (List.map_perm_map_iff injective).1 mapped

namespace Grammar

/-- The one grammar has the rulesets of the other in some order, and the same constants. -/
structure Reordered (g g' : Grammar) : Prop where
  rulesets : g.rulesets.Perm g'.rulesets
  constants : g.constants = g'.constants

namespace Reordered

variable {g g' : Grammar} (same : g.Reordered g') {callbacks : List String}

include same

theorem symm : g'.Reordered g := ⟨same.rulesets.symm, same.constants.symm⟩

theorem names_perm : g.names.Perm g'.names := same.rulesets.map Ruleset.name

theorem forall_iff {P : Ruleset → Prop} : (∀ s ∈ g.rulesets, P s) ↔ ∀ s ∈ g'.rulesets, P s := by
  simp only [same.rulesets.mem_iff]

theorem refersTo_eq : g.RefersTo = g'.RefersTo := by
  funext name name'
  unfold RefersTo
  simp only [same.rulesets.mem_iff]

theorem namedIn_iff (x : Matcher) : x.NamedIn g.names ↔ x.NamedIn g'.names := by
  cases x with
  | ref name target => exact same.names_perm.mem_iff
  | capture | group | literal | charClass | any => exact Iff.rfl

theorem acceptable (h : g.Acceptable callbacks) : g'.Acceptable callbacks := by
  refine ⟨same.names_perm.nodup_iff.1 h.distinct, same.names_perm.mem_iff.1 h.entry, ?_, ?_, ?_, ?_, ?_⟩
  · have named : g'.Every (Matcher.NamedIn g.names) := same.forall_iff.1 h.named
    exact named.imp fun x => (same.namedIn_iff x).1
  · intro name member
    exact same.refersTo_eq ▸ h.reachable name (same.names_perm.mem_iff.2 member)
  · exact same.constants ▸ h.constants
  · exact same.constants ▸ same.forall_iff.1 h.rules
  · exact same.forall_iff.1 h.compiles

/-- The order of rulesets does not matter for whether a grammar is accepted. -/
theorem acceptable_iff : g.Acceptable callbacks ↔ g'.Acceptable callbacks :=
  ⟨same.acceptable, same.symm.acceptable⟩

theorem relabel (ν : Labels) : (g.relabel ν).Reordered (g'.relabel ν) :=
  ⟨same.rulesets.map (Ruleset.relabel ν), same.constants⟩

variable {a a' : AnnotatedGrammar} (accepted : g.annotate? callbacks = .ok a)
  (accepted' : g'.annotate? callbacks = .ok a')

include accepted accepted'

theorem terminals_perm : a.terminals.Perm a'.terminals := by
  rw [List.perm_ext_iff_of_nodup (terminals_nodup accepted) (terminals_nodup accepted')]
  intro t
  rw [mem_terminals_iff accepted, mem_terminals_iff accepted']
  exact not_congr same.forall_iff

/-- But for what says where rulesets and terminals are, the annotated rulesets are the same. -/
theorem rulesets_perm {ν : Labels} (keeps : ν.KeepsSlots) :
    (a.grammar.relabel ν).rulesets.Perm (a'.grammar.relabel ν).rulesets := by
  have laid := annotate?_laidOut keeps accepted
  have laid' := annotate?_laidOut keeps accepted'
  obtain ⟨rulesets, each, h⟩ := Except.bind_eq_ok laid
  obtain ⟨rulesets', each', h'⟩ := Except.bind_eq_ok laid'
  have here : rulesets = (a.grammar.relabel ν).rulesets := congrArg Grammar.rulesets (Except.ok.inj h)
  have there : rulesets' = (a'.grammar.relabel ν).rulesets := congrArg Grammar.rulesets (Except.ok.inj h')
  rw [← here, ← there]
  exact Except.perm_of_mapM (same.relabel ν).rulesets each each'

end Reordered

end Grammar

end PegFlow
