/-
# PegFlow.Proofs.Program.Rename -- other numbers for what ops refer to

Ops refer by numbers to other ops, to rulesets, rules and terminals; `Renaming` gives each
another number. `Op.renumber` leaves the places of ops as they are, and `Op.rename` changes them
too. A fragment made of renumbered parts is the renumbered fragment, whatever it is put together
from, so the fragment of relabelled patterns is the renumbered one of the patterns when the labels
of references and terminals are the new numbers (`Pattern.fragment_relabel`). Rules at another
place, under other numbers, are the renamed rules (`Program.rulesFragment_rename`).
-/
import PegFlow.Proofs.Grammar.Labels
import PegFlow.Proofs.Grammar.Traverse
import PegFlow.Proofs.Program.Relocate

namespace PegFlow

set_option autoImplicit false
set_option linter.unusedSectionVars false

/-- Other numbers for ops, rulesets, rules and terminals. -/
structure Renaming where
  op : Nat → Nat := id
  ruleset : Nat → Nat := id
  rule : Nat → Nat := id
  terminal : Nat → Nat := id

namespace Op

variable (ν : Renaming)

/-- The op with other numbers for the ruleset, the rule or the terminal that it refers to. -/
def renumber : Op → Op
  | .terminal id pass fail => .terminal (ν.terminal id) pass fail
  | .call ruleset pass fail => .call (ν.ruleset ruleset) pass fail
  | .output rule next => .output (ν.rule rule) next
  | o => o

/-- The op with other numbers for all that it refers to. -/
def rename (o : Op) : Op := (o.renumber ν).relocate ν.op

theorem renumber_relocate (μ : Nat → Nat) (o : Op) :
    (o.relocate μ).renumber ν = (o.renumber ν).relocate μ := by
  cases o <;> rfl

end Op

/-- The code with other numbers for all that its ops refer to. -/
def Code.rename (ν : Renaming) (code : Code) : Code := ⟨code.ops.map (Op.rename ν), ν.op code.entry⟩

namespace Fragment

variable (ν : Renaming) (f g : Fragment)

/-- The fragment whose ops have other numbers for rulesets and terminals. -/
def renumber : Fragment := fun base pass fail =>
  ⟨(f base pass fail).ops.map (Op.renumber ν), (f base pass fail).entry⟩

theorem renumber_terminal (id : Nat) :
    (Fragment.terminal id).renumber ν = Fragment.terminal (ν.terminal id) := rfl

theorem renumber_call (ruleset : Nat) :
    (Fragment.call ruleset).renumber ν = Fragment.call (ν.ruleset ruleset) := rfl

theorem renumber_orElse : (f.orElse g).renumber ν = (f.renumber ν).orElse (g.renumber ν) := by
  funext base pass fail
  simp [renumber, orElse]

theorem renumber_andThen : (f.andThen g).renumber ν = (f.renumber ν).andThen (g.renumber ν) := by
  funext base pass fail
  simp [renumber, andThen]

theorem renumber_atomically : f.atomically.renumber ν = (f.renumber ν).atomically := by
  funext base pass fail
  simp [renumber, atomically, Op.renumber]

theorem renumber_lookahead : f.lookahead.renumber ν = (f.renumber ν).lookahead := by
  funext base pass fail
  simp [renumber, lookahead, Op.renumber]

theorem renumber_negativeLookahead :
    f.negativeLookahead.renumber ν = (f.renumber ν).negativeLookahead := by
  funext base pass fail
  simp [renumber, negativeLookahead, Op.renumber]

theorem renumber_optional (slots : List Nat) :
    (f.optional slots).renumber ν = (f.renumber ν).optional slots := by
  funext base pass fail
  by_cases none : slots.isEmpty <;> simp [renumber, optional, none, Op.renumber]

theorem renumber_loop (least : Nat) : (f.loop least).renumber ν = (f.renumber ν).loop least := by
  funext base pass fail
  simp [renumber, loop, Op.renumber]

theorem renumber_capture (slot : Nat) (ofRule : Bool) :
    (f.capture slot ofRule).renumber ν = (f.renumber ν).capture slot ofRule := by
  funext base pass fail
  simp [renumber, capture, Op.renumber]

theorem renumber_modified (required repeated ahead notAhead : Bool) (slots : List Nat) :
    (f.modified required repeated ahead notAhead slots).renumber ν =
      (f.renumber ν).modified required repeated ahead notAhead slots := by
  simp only [modified]
  cases required <;> cases repeated <;> cases ahead <;> cases notAhead <;>
    simp [renumber_loop, renumber_optional, renumber_lookahead, renumber_negativeLookahead]

/-- A fragment moved, with its ops renumbered, is the renamed fragment. -/
theorem Movable.rename {ν : Renaming} {f : Fragment} (movable : f.Movable) (base base' pass fail : Nat)
    (moved : ∀ i < (f base pass fail).ops.length, ν.op (base + i) = base' + i) :
    f.renumber ν base' (ν.op pass) (ν.op fail) = (f base pass fail).rename ν := by
  have there := movable ν.op base base' pass fail moved
  have each : Op.renumber ν ∘ Op.relocate ν.op = Op.rename ν :=
    funext fun o => o.renumber_relocate ν ν.op
  rw [renumber, there, Code.relocate, Code.rename, List.map_map, each]

end Fragment

/-! ## Relabelled patterns -/

/-- A capture of one plain reference is one whatever the annotations are. -/
theorem Pattern.isPlainRef_relabel (lab : NodeLabels) : ∀ ps : List Pattern,
    Pattern.isPlainRef (Pattern.relabel lab ps) = Pattern.isPlainRef ps
  | [] => rfl
  | ⟨[], _, _⟩ :: _ => rfl
  | [⟨[⟨matcher, _, _, _, _, _, _⟩], _, _⟩] => by cases matcher <;> rfl
  | ⟨[⟨matcher, _, _, _, _, _, _⟩], _, _⟩ :: ⟨_, _, _⟩ :: _ => by cases matcher <;> rfl
  | ⟨⟨matcher, _, _, _, _, _, _⟩ :: ⟨_, _, _, _, _, _, _⟩ :: _, _, _⟩ :: _ => by cases matcher <;> rfl

theorem Token.length_relabel (lab : NodeLabels) (ts : List Token) :
    (Token.relabel lab ts).length = ts.length := by
  induction ts with
  | nil => rfl
  | cons t rest ih =>
      obtain ⟨matcher, required, repeated, ahead, notAhead, id, pos⟩ := t
      rw [Token.relabel, List.length_cons, List.length_cons, ih]

section

variable {lab : NodeLabels} (slot : lab.slot = NodeLabels.keep.slot)

include slot

mutual

theorem Matcher.slots_relabel : ∀ x : Matcher, (x.relabel lab).slots = x.slots
  | .capture patterns old => by
      rw [Matcher.relabel, Matcher.slots, Matcher.slots, Pattern.slots_relabel patterns, slot]
      rfl
  | .group patterns => by
      rw [Matcher.relabel, Matcher.slots, Matcher.slots, Pattern.slots_relabel patterns]
  | .ref _ _ => rfl
  | .literal _ _ => rfl
  | .charClass _ _ => rfl
  | .any _ => rfl

theorem Token.slots_relabel : ∀ ts : List Token,
    Matcher.tokenSlots (Token.relabel lab ts) = Matcher.tokenSlots ts
  | [] => rfl
  | ⟨matcher, _, _, _, _, _, _⟩ :: rest => by
      rw [Token.relabel, Matcher.tokenSlots, Matcher.tokenSlots, matcher.slots_relabel,
        Token.slots_relabel rest]

theorem Pattern.slots_relabel : ∀ ps : List Pattern,
    Matcher.firstSlots (Pattern.relabel lab ps) = Matcher.firstSlots ps
  | [] => rfl
  | ⟨tokens, _, _⟩ :: _ => by
      rw [Pattern.relabel, Matcher.firstSlots, Matcher.firstSlots, Token.slots_relabel tokens]

end

variable {ν : Renaming}

open Fragment

mutual

theorem Matcher.fragment_relabel : ∀ x : Matcher,
    x.Every (fun y => (y.relabel lab).fragment = y.fragment.renumber ν) →
      (x.relabel lab).fragment = x.fragment.renumber ν
  | .capture patterns old, leaves => by
      rw [Matcher.relabel, Matcher.fragment, Matcher.fragment, renumber_capture,
        Pattern.fragment_relabel patterns leaves, Pattern.isPlainRef_relabel, slot]
      rfl
  | .group patterns, leaves => by
      rw [Matcher.relabel, Matcher.fragment, Matcher.fragment, Pattern.fragment_relabel patterns leaves]
  | .ref _ _, leaf => leaf
  | .literal _ _, leaf => leaf
  | .charClass _ _, leaf => leaf
  | .any _, leaf => leaf

theorem Token.fragment_relabel : ∀ ts : List Token,
    Token.Every (fun y => (y.relabel lab).fragment = y.fragment.renumber ν) ts →
      Token.fragment (Token.relabel lab ts) = (Token.fragment ts).renumber ν
  | [], _ => rfl
  | ⟨matcher, _, _, _, _, _, _⟩ :: rest, ⟨here, later⟩ => by
      rw [Token.relabel, Token.fragment, Token.fragment, renumber_andThen, renumber_modified,
        matcher.fragment_relabel here, Token.fragment_relabel rest later, matcher.slots_relabel slot]

/-- The fragment of patterns whose references and terminals got other labels is renumbered. -/
theorem Pattern.fragment_relabel : ∀ ps : List Pattern,
    Pattern.Every (fun y => (y.relabel lab).fragment = y.fragment.renumber ν) ps →
      Pattern.fragment (Pattern.relabel lab ps) = (Pattern.fragment ps).renumber ν
  | [], _ => rfl
  | ⟨tokens, _, _⟩ :: rest, ⟨here, later⟩ => by
      rw [Pattern.relabel, Pattern.fragment, Pattern.fragment, renumber_orElse,
        Token.length_relabel, Token.fragment_relabel tokens here, Pattern.fragment_relabel rest later]
      split
      · rfl
      · rw [renumber_atomically]

end

end

/-! ## Renamed rules -/

namespace Fragment

/-- A rule after which the fragment passes. -/
def ruled (index : Nat) (patterns : Fragment) : Fragment := fun base pass fail =>
  patterns.rule index pass base pass fail

theorem renumber_ruled (ν : Renaming) (index : Nat) (f : Fragment) :
    (f.ruled index).renumber ν = (f.renumber ν).ruled (ν.rule index) := by
  funext base pass fail
  simp [renumber, ruled, rule, Op.renumber]

theorem Movable.ruled (index : Nat) {f : Fragment} (patterns : f.Movable) : (f.ruled index).Movable := by
  intro μ base base' pass fail moved
  have zero : μ base = base' := moved 0 (by simp [Fragment.ruled, rule])
  have inner := patterns μ (base + 1) (base' + 1) base fail
    (moved_right 1 (by simp [Fragment.ruled, rule, Nat.add_comm]) moved)
  rw [zero] at inner
  simp [Fragment.ruled, rule, inner, Code.relocate, Op.relocate]

end Fragment

namespace Program

/-- Rules tried in order, the fragment passing after each. -/
def rulesChoice (index : Nat) : List Rule → Fragment
  | [] => Fragment.fail
  | r :: rest => ((Pattern.fragment r.patterns).ruled index).orElse (rulesChoice (index + 1) rest)

/-- Rules leave the ruleset when they pass, so this is where their fragment passes. -/
theorem rulesFragment_eq_rulesChoice (index base fail : Nat) (rules : List Rule) :
    rulesFragment index rules base retAt fail = rulesChoice index rules base retAt fail := by
  induction rules generalizing index with
  | nil => rfl
  | cons r rest ih =>
      rw [rulesFragment, rulesChoice, Fragment.orElse, Fragment.orElse, ih (index + 1)]
      rfl

theorem rulesChoice_movable (index : Nat) (rules : List Rule) : (rulesChoice index rules).Movable := by
  induction rules generalizing index with
  | nil => exact .fail
  | cons r rest ih => exact ((Pattern.fragment_movable r.patterns).ruled index).orElse (ih (index + 1))

theorem rulesChoice_renumber {ν : Renaming} {rules rules' : List Rule}
    (patterns : rules'.map (fun r => Pattern.fragment r.patterns) =
      rules.map fun r => (Pattern.fragment r.patterns).renumber ν)
    {index index' : Nat} (numbered : ∀ k < rules.length, ν.rule (index + k) = index' + k) :
    rulesChoice index' rules' = (rulesChoice index rules).renumber ν := by
  induction rules generalizing rules' index index' with
  | nil =>
      rw [List.map_nil, List.map_eq_nil_iff] at patterns
      rw [patterns]
      rfl
  | cons r rest ih =>
      obtain ⟨r', rest', rfl, here, later⟩ := List.map_eq_cons_iff.1 patterns
      have first : ν.rule index = index' := numbered 0 (Nat.succ_pos _)
      have others : rulesChoice (index' + 1) rest' = (rulesChoice (index + 1) rest).renumber ν := by
        refine ih later fun k lt => ?_
        have next := numbered (k + 1) (Nat.succ_lt_succ lt)
        rwa [Nat.add_comm k, ← Nat.add_assoc, ← Nat.add_assoc] at next
      rw [rulesChoice, rulesChoice, Fragment.renumber_orElse, Fragment.renumber_ruled, first, others, here]

/-- The rules of a ruleset under other numbers and at another place are its rules, renamed. -/
theorem rulesFragment_rename {ν : Renaming} (ret : ν.op retAt = retAt) (retFail : ν.op retFailAt = retFailAt)
    {rules rules' : List Rule}
    (patterns : rules'.map (fun r => Pattern.fragment r.patterns) =
      rules.map fun r => (Pattern.fragment r.patterns).renumber ν)
    {index index' base base' : Nat} (numbered : ∀ k < rules.length, ν.rule (index + k) = index' + k)
    (moved : ∀ k < (rulesFragment index rules base retAt retFailAt).ops.length, ν.op (base + k) = base' + k) :
    rulesFragment index' rules' base' retAt retFailAt =
      (rulesFragment index rules base retAt retFailAt).rename ν := by
  rw [rulesFragment_eq_rulesChoice] at moved ⊢
  have placed := (rulesChoice_movable index rules).rename base base' retAt retFailAt moved
  rw [ret, retFail] at placed
  rw [rulesFragment_eq_rulesChoice, rulesChoice_renumber patterns numbered, placed]

end Program

end PegFlow
