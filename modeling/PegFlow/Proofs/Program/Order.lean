/-
# PegFlow.Proofs.Program.Order -- programs of grammars in another order

An annotated grammar says by numbers what references and terminals are; `AnnotatedGrammar.links`
writes down these numbers given what they stand for. When two annotated grammars have the same
rulesets but for such numbers, in some order, the program of the one is that of the other under
other numbers, which `AnnotatedGrammar.renumbering` tells (`AnnotatedGrammar.Reorders.renumbered`).
-/
import PegFlow.Proofs.Grammar.Order
import PegFlow.Proofs.Program.Places
import PegFlow.Proofs.Stream.Rename

namespace PegFlow

set_option autoImplicit false

/-! ## Numbers for what is named -/

namespace AnnotatedGrammar

/-- The labels that give references and terminals their numbers in the grammar. -/
def links (a : AnnotatedGrammar) : Labels :=
  { Labels.slotsOnly with
    target := fun name _ => some (a.grammar.names.idxOf name)
    literal := fun text _ => some (a.terminals.idxOf (.literal text))
    charClass := fun spec _ => (Terminal.ofClass? spec).toOption.map fun t => a.terminals.idxOf t
    any := fun _ => some (a.terminals.idxOf .any) }

theorem links_keepsSlots (a : AnnotatedGrammar) : a.links.KeepsSlots :=
  ⟨rfl, fun _ _ => rfl, fun _ _ _ => rfl, fun _ _ _ => rfl, fun _ _ _ => rfl, fun _ _ => rfl, fun _ _ => rfl,
    fun _ _ => rfl, fun _ _ => rfl⟩

/-- Numbers are the places of what they stand for, and nothing has two places. -/
structure Sited (a : AnnotatedGrammar) : Prop where
  linked : a.Linked
  named : a.grammar.Every (Matcher.Named a.grammar.names)
  entry : a.grammar.names[a.entry]? = some Grammar.entryName
  names : a.grammar.names.Nodup
  terminals : a.terminals.Nodup

/-- The one grammar has the terminals and rulesets of the other in some order. -/
structure Reorders (a a' : AnnotatedGrammar) : Prop where
  terminals : a.terminals.Perm a'.terminals
  rulesets : (a.grammar.relabel a'.links).rulesets.Perm (a'.grammar.relabel a'.links).rulesets

/-- The numbers in the program of the other grammar. -/
def renumbering (a a' : AnnotatedGrammar) : Renaming where
  op i :=
    if i < 2 then i
    else 2 + Renaming.between (Program.places Ruleset.opCount a.grammar.rulesets)
      (Program.places Ruleset.opCount a'.grammar.rulesets) (i - 2)
  ruleset := Renaming.between a.grammar.names a'.grammar.names
  rule := Renaming.between (Program.places Ruleset.ruleCount a.grammar.rulesets)
    (Program.places Ruleset.ruleCount a'.grammar.rulesets)
  terminal := Renaming.between a.terminals a'.terminals

end AnnotatedGrammar

theorem Grammar.annotate?_sited {g : Grammar} {callbacks : List String} {a : AnnotatedGrammar}
    (accepted : g.annotate? callbacks = .ok a) : a.Sited := by
  have names := annotate?_names accepted
  obtain ⟨-, -, -, -, entry, -⟩ := annotate?_stages accepted
  obtain ⟨distinct, here⟩ := entry?_eq_ok_iff.1 entry
  have numbered : g.number.names = a.grammar.names := (names_of_bare (number_bare g)).trans names.symm
  rw [numbered] at distinct here
  exact ⟨annotate?_linked accepted, names ▸ annotate?_named accepted, here, distinct, terminals_nodup accepted⟩

theorem Grammar.Reordered.reorders {g g' : Grammar} (same : g.Reordered g') {callbacks : List String}
    {a a' : AnnotatedGrammar} (accepted : g.annotate? callbacks = .ok a)
    (accepted' : g'.annotate? callbacks = .ok a') : a.Reorders a' :=
  ⟨same.terminals_perm accepted accepted', same.rulesets_perm accepted accepted' a'.links_keepsSlots⟩

/-! ## Patterns under other numbers -/

namespace Fragment

/-- To give everything the number that it has changes nothing. -/
theorem renumber_same (f : Fragment) : f.renumber {} = f := by
  funext base pass fail
  have same : Op.renumber {} = id := by
    funext o
    cases o <;> rfl
  rw [renumber, same, List.map_id]

theorem size_renumber (ν : Renaming) (f : Fragment) : (f.renumber ν).size = f.size := List.length_map ..

end Fragment

/-- The numbers become those that the same things have in the other grammar. -/
structure Renaming.Leads (ν : Renaming) (a a' : AnnotatedGrammar) : Prop where
  rulesets : ∀ (i : Nat) (name : String), a.grammar.names[i]? = some name →
    a'.grammar.names.idxOf name = ν.ruleset i
  terminals : ∀ (id : Nat) (t : Terminal), a.terminals[id]? = some t → a'.terminals.idxOf t = ν.terminal id

section

variable {a a' : AnnotatedGrammar}

theorem AnnotatedGrammar.Sited.leads_same (sited : a.Sited) : Renaming.Leads {} a a :=
  ⟨fun _ _ here => List.idxOf_of_getElem? sited.names here,
    fun _ _ here => List.idxOf_of_getElem? sited.terminals here⟩

theorem AnnotatedGrammar.renumbering_leads (a a' : AnnotatedGrammar) : (a.renumbering a').Leads a a' := by
  constructor
  · intro i name here
    show _ = Renaming.between a.grammar.names a'.grammar.names i
    rw [Renaming.between, here]
  · intro id t here
    show _ = Renaming.between a.terminals a'.terminals id
    rw [Renaming.between, here]

/-- A matcher whose number is written anew has the fragment with that number. -/
theorem Matcher.fragment_links {ν : Renaming} (leads : ν.Leads a a') {n : Nat} {x : Matcher}
    (leaf : x.isChoice = false) (linked : x.Linked a.terminals n) (named : x.Named a.grammar.names) :
    (x.relabel a'.links.toNodeLabels).fragment = x.fragment.renumber ν := by
  cases x with
  | ref name target =>
      obtain ⟨i, rfl, here⟩ := named
      show Fragment.call (a'.grammar.names.idxOf name) = (Fragment.call i).renumber ν
      rw [Fragment.renumber_call, leads.rulesets i name here]
  | literal text terminal =>
      obtain ⟨id, rfl, here⟩ := linked
      show Fragment.terminal (a'.terminals.idxOf (.literal text)) = (Fragment.terminal id).renumber ν
      rw [Fragment.renumber_terminal, leads.terminals id _ here]
  | charClass spec terminal =>
      obtain ⟨id, t, rfl, own, here⟩ := linked
      have number : a'.links.charClass spec (some id) = some (ν.terminal id) := by
        show (Terminal.ofClass? spec).toOption.map _ = _
        rw [own, ← leads.terminals id t here]
        rfl
      rw [Matcher.relabel, number]
      rfl
  | any terminal =>
      obtain ⟨id, rfl, here⟩ := linked
      show Fragment.terminal (a'.terminals.idxOf .any) = (Fragment.terminal id).renumber ν
      rw [Fragment.renumber_terminal, leads.terminals id _ here]
  | capture | group => cases leaf

namespace AnnotatedGrammar

theorem Sited.fragment_links (sited : a.Sited) {ν : Renaming} (leads : ν.Leads a a') {s : Ruleset}
    (hs : s ∈ a.grammar.rulesets) {r : Rule} (hr : r ∈ s.rules) :
    Pattern.fragment (r.relabel a'.links).patterns = (Pattern.fragment r.patterns).renumber ν := by
  have every := Pattern.Every.and r.patterns (Pattern.every_leaf r.patterns)
    (Pattern.Every.and r.patterns (sited.linked.every s hs r hr) (sited.named s hs r hr))
  have slot : a'.links.toNodeLabels.slot = NodeLabels.keep.slot := rfl
  refine Pattern.fragment_relabel slot r.patterns (Pattern.Every.imp ?_ r.patterns every)
  rintro x ⟨leaf, linked, named⟩
  exact Matcher.fragment_links leads leaf linked named

/-- In its own grammar a rule has its numbers. -/
theorem Sited.fragment_own (sited : a.Sited) {s : Ruleset} (hs : s ∈ a.grammar.rulesets) {r : Rule}
    (hr : r ∈ s.rules) : Pattern.fragment (r.relabel a.links).patterns = Pattern.fragment r.patterns := by
  rw [sited.fragment_links sited.leads_same hs hr, Fragment.renumber_same]

end AnnotatedGrammar

end

/-! ## Rulesets under other numbers -/

/-- The ruleset is the other one under other numbers, but for positions in a grammar's text. -/
structure Ruleset.Renumbered (ν : Renaming) (s s' : Ruleset) : Prop where
  name : s'.name = s.name
  patterns : s'.rules.map (fun r => Pattern.fragment r.patterns) =
    s.rules.map fun r => (Pattern.fragment r.patterns).renumber ν
  outputs : s'.rules.map Program.outputOf = s.rules.map Program.outputOf

namespace Ruleset.Renumbered

variable {ν : Renaming} {s s' : Ruleset} (same : s.Renumbered ν s')

include same

theorem ruleCount_eq : s'.ruleCount = s.ruleCount := by
  have length := congrArg List.length same.patterns
  rwa [List.length_map, List.length_map] at length

theorem opCount_eq : s'.opCount = s.opCount := by
  have sizes := congrArg (fun fs : List Fragment => (fs.map fun f => f.size + 1).sum) same.patterns
  simp only [List.map_map, Function.comp_def, Fragment.size_renumber] at sizes
  exact sizes

end Ruleset.Renumbered

namespace AnnotatedGrammar

variable {a a' : AnnotatedGrammar}

theorem Reorders.names (order : a.Reorders a') : a.grammar.names.Perm a'.grammar.names := by
  have names : ((a.grammar.relabel a'.links).names).Perm (a'.grammar.relabel a'.links).names :=
    order.rulesets.map Ruleset.name
  rwa [Grammar.names_relabel, Grammar.names_relabel] at names

variable (order : a.Reorders a') (here : a.Sited) (there : a'.Sited)

include order here there

/-- Each ruleset is in the other grammar under the numbers of that one. -/
theorem Reorders.exists_renumbered {s : Ruleset} (hs : s ∈ a.grammar.rulesets) :
    ∃ s' ∈ a'.grammar.rulesets, s.Renumbered (a.renumbering a') s' := by
  obtain ⟨s', hs', same⟩ := List.mem_map.1 (order.rulesets.mem_iff.1 (List.mem_map_of_mem hs))
  have name : (s'.relabel a'.links).name = (s.relabel a'.links).name := congrArg Ruleset.name same
  have rules : s'.rules.map (Rule.relabel a'.links) = s.rules.map (Rule.relabel a'.links) :=
    congrArg Ruleset.rules same
  refine ⟨s', hs', name, ?_, ?_⟩
  · have fragments := congrArg (List.map fun r : Rule => Pattern.fragment r.patterns) rules
    rw [List.map_map, List.map_map] at fragments
    calc s'.rules.map (fun r => Pattern.fragment r.patterns)
        = s'.rules.map fun r => Pattern.fragment (r.relabel a'.links).patterns :=
          List.map_congr_left fun r hr => (there.fragment_own hs' hr).symm
      _ = s.rules.map fun r => Pattern.fragment (r.relabel a'.links).patterns := fragments
      _ = s.rules.map fun r => (Pattern.fragment r.patterns).renumber (a.renumbering a') :=
          List.map_congr_left fun r hr => here.fragment_links (a.renumbering_leads a') hs hr
  · have outputs := congrArg (List.map Program.outputOf) rules
    rwa [List.map_map, List.map_map] at outputs

/-- Each ruleset of the other grammar is one of this one. -/
theorem Reorders.exists_of_renumbered {s' : Ruleset} (hs' : s' ∈ a'.grammar.rulesets) :
    ∃ s ∈ a.grammar.rulesets, s.Renumbered (a.renumbering a') s' := by
  obtain ⟨s, hs, name⟩ := List.mem_map.1 (order.names.mem_iff.2 (List.mem_map_of_mem hs'))
  obtain ⟨s'', hs'', same⟩ := order.exists_renumbered here there hs
  obtain rfl : s'' = s' := List.inj_on_of_nodup_map there.names hs'' hs' (same.name.trans name)
  exact ⟨s, hs, same⟩

/-- What is counted of rulesets is the same of each in the other grammar, so there are the same
places in another order. -/
theorem Reorders.places_perm {count : Ruleset → Nat}
    (counted : ∀ s s' : Ruleset, s.Renumbered (a.renumbering a') s' → count s' = count s) :
    (Program.places count a.grammar.rulesets).Perm (Program.places count a'.grammar.rulesets) := by
  have distinct := Program.places_nodup count here.names
  have distinct' := Program.places_nodup count there.names
  rw [List.perm_ext_iff_of_nodup distinct distinct']
  rintro ⟨name, k⟩
  rw [Program.mem_places, Program.mem_places]
  constructor
  · rintro ⟨s, hs, rfl, lt⟩
    obtain ⟨s', hs', same⟩ := order.exists_renumbered here there hs
    exact ⟨s', hs', same.name, (counted s s' same).symm ▸ lt⟩
  · rintro ⟨s', hs', rfl, lt⟩
    obtain ⟨s, hs, same⟩ := order.exists_of_renumbered here there hs'
    exact ⟨s, hs, same.name.symm, counted s s' same ▸ lt⟩

/-- A ruleset with those before and after it in both grammars. -/
theorem Reorders.exists_split {before after : List Ruleset} {s : Ruleset}
    (split : a.grammar.rulesets = before ++ s :: after) :
    ∃ before' s' after', a'.grammar.rulesets = before' ++ s' :: after' ∧
      s.Renumbered (a.renumbering a') s' := by
  obtain ⟨s', hs', same⟩ := order.exists_renumbered here there (s := s) (by simp [split])
  obtain ⟨before', after', split'⟩ := List.append_of_mem hs'
  exact ⟨before', s', after', split', same⟩

end AnnotatedGrammar

/-! ## Programs under other numbers -/

namespace AnnotatedGrammar

open Program

variable {a a' : AnnotatedGrammar} (order : a.Reorders a') (here : a.Sited) (there : a'.Sited)
  {before after before' after' : List Ruleset} {s s' : Ruleset}
  (split : a.grammar.rulesets = before ++ s :: after) (split' : a'.grammar.rulesets = before' ++ s' :: after')
  (same : s.Renumbered (a.renumbering a') s')

include there split split' same

theorem renumbering_ruleset : (a.renumbering a').ruleset before.length = before'.length := by
  refine Renaming.between_eq (x := s.name) there.names ?_ ?_
  · rw [Grammar.names, split, List.getElem?_map]
    simp
  · rw [Grammar.names, split', List.getElem?_map]
    simp [same.name]

theorem renumbering_rule {k : Nat} (lt : k < s.ruleCount) :
    (a.renumbering a').rule ((places Ruleset.ruleCount before).length + k) =
      (places Ruleset.ruleCount before').length + k := by
  refine Renaming.between_eq (x := (s.name, k)) (places_nodup _ there.names) ?_ ?_
  · rw [split]
    exact getElem?_places _ before s after lt
  · rw [split', ← same.name]
    exact getElem?_places _ before' s' after' (same.ruleCount_eq ▸ lt)

theorem renumbering_op {k : Nat} (lt : k < s.opCount) :
    (a.renumbering a').op (2 + (places Ruleset.opCount before).length + k) =
      2 + (places Ruleset.opCount before').length + k := by
  have between : Renaming.between (places Ruleset.opCount a.grammar.rulesets)
      (places Ruleset.opCount a'.grammar.rulesets) ((places Ruleset.opCount before).length + k) = (places Ruleset.opCount before').length + k := by
    refine Renaming.between_eq (x := (s.name, k)) (places_nodup _ there.names) ?_ ?_
    · rw [split]
      exact getElem?_places _ before s after lt
    · rw [split', ← same.name]
      exact getElem?_places _ before' s' after' (same.opCount_eq ▸ lt)
  show (if _ then _ else 2 + _) = _
  rw [if_neg (by omega), Nat.add_assoc, Nat.add_sub_cancel_left, between, Nat.add_assoc]

/-- The code of a ruleset in the other program. -/
theorem codeAfter_rename : codeAfter before' s' = (codeAfter before s).rename (a.renumbering a') := by
  refine rulesFragment_rename rfl rfl same.patterns ?_ ?_
  · intro k lt
    exact renumbering_rule there split split' same lt
  · intro k lt
    rw [← codeAfter, length_codeAfter] at lt
    exact renumbering_op there split split' same lt

omit there split split' same in
/-- Ops behind the rulesets stay where they are. -/
theorem renumbering_behind (a a' : AnnotatedGrammar) (k : Nat) :
    (a.renumbering a').op (2 + (places Ruleset.opCount a.grammar.rulesets).length + k) =
      2 + (places Ruleset.opCount a.grammar.rulesets).length + k := by
  have le : (places Ruleset.opCount a.grammar.rulesets).length ≤
      (places Ruleset.opCount a.grammar.rulesets).length + k := Nat.le_add_right _ _
  show (if _ then _ else 2 + _) = _
  rw [if_neg (by omega), Nat.add_assoc, Nat.add_sub_cancel_left, Renaming.between_of_le le]

end AnnotatedGrammar

namespace AnnotatedGrammar.Reorders

open Program

variable {a a' : AnnotatedGrammar} (order : a.Reorders a') (here : a.Sited) (there : a'.Sited)
  (library : Library)

include order here there

theorem length_ops : (places Ruleset.opCount a.grammar.rulesets).length =
    (places Ruleset.opCount a'.grammar.rulesets).length :=
  (order.places_perm here there fun _ _ same => same.opCount_eq).length_eq

/-- An op of a ruleset is in the other program with its ruleset. -/
theorem renumbered_inside {op : Nat} {o : Op} (held : (ofGrammar a library).ops[2 + op]? = some o)
    (inside : op < (places Ruleset.opCount a.grammar.rulesets).length) :
    (ofGrammar a' library).ops[(a.renumbering a').op (2 + op)]? = some (o.rename (a.renumbering a')) := by
  obtain ⟨before, s, after, k, split, rfl, within⟩ := exists_of_lt_places _ inside
  obtain ⟨before', s', after', split', same⟩ := order.exists_split here there split
  rw [← Nat.add_assoc] at held
  obtain ⟨o', found⟩ : ∃ o', (codeAfter before s).ops[k]? = some o' :=
    ⟨_, List.getElem?_eq_getElem (by rwa [length_codeAfter])⟩
  cases held.symm.trans ((ofGrammar_placed library split).ops k o' found)
  rw [← Nat.add_assoc, renumbering_op there split split' same within]
  refine (ofGrammar_placed library split').ops k _ ?_
  rw [codeAfter_rename there split split' same, Code.rename, List.getElem?_map, found]
  rfl

/-- Every op is in the other program under the numbers of that one: those that leave rulesets, those
of rulesets, and those behind them. -/
theorem renumbered_ops (op : Nat) (o : Op) (held : (ofGrammar a library).ops[op]? = some o) :
    (ofGrammar a' library).ops[(a.renumbering a').op op]? = some (o.rename (a.renumbering a')) := by
  have lt : op < (ofGrammar a library).ops.size := (Array.getElem?_eq_some_iff.1 held).1
  rw [size_ops] at lt
  match op, held, lt with
  | 0, held, _ =>
      cases held.symm.trans (ofGrammar_ret a library)
      exact ofGrammar_ret a' library
  | 1, held, _ =>
      cases held.symm.trans (ofGrammar_retFail a library)
      exact ofGrammar_retFail a' library
  | op + 2, held, lt =>
      rw [Nat.add_comm op 2] at held ⊢
      by_cases inside : op < (places Ruleset.opCount a.grammar.rulesets).length
      · exact order.renumbered_inside here there library held inside
      · obtain ⟨k, rfl⟩ := Nat.exists_eq_add_of_le (Nat.le_of_not_lt inside)
        have few : k < 3 := by omega
        obtain ⟨-, accept, reject, call⟩ := ofGrammar_behind a library rfl
        obtain ⟨-, accept', reject', call'⟩ := ofGrammar_behind a' library (order.length_ops here there)
        have behind := renumbering_behind a a'
        rw [← Nat.add_assoc] at held ⊢
        rw [behind k]
        match k, few with
        | 0, _ =>
            cases held.symm.trans accept
            exact accept'
        | 1, _ =>
            cases held.symm.trans reject
            exact reject'
        | 2, _ =>
            have entry : (a.renumbering a').ruleset a.entry = a'.entry :=
              Renaming.between_eq there.names here.entry there.entry
            cases held.symm.trans call
            rw [call', Op.rename, Op.renumber, Op.relocate, entry]
            exact congrArg some (congrArg₂ (Op.call _) (behind 0).symm (behind 1).symm)

theorem renumbered_entries (ruleset : Nat) :
    (ofGrammar a' library).entries[(a.renumbering a').ruleset ruleset]? =
      (ofGrammar a library).entries[ruleset]?.map (a.renumbering a').op := by
  cases found : a.grammar.rulesets[ruleset]? with
  | some s =>
      obtain ⟨before, after, split, rfl⟩ := List.exists_of_getElem? found
      obtain ⟨before', s', after', split', same⟩ := order.exists_split here there split
      rw [renumbering_ruleset there split split' same, (ofGrammar_placed library split').entry,
        (ofGrammar_placed library split).entry, codeAfter_rename there split split' same]
      rfl
  | none =>
      have beyond := List.getElem?_eq_none_iff.1 found
      have length : a.grammar.names.length = a.grammar.rulesets.length := List.length_map ..
      have length' : a'.grammar.names.length = a'.grammar.rulesets.length := List.length_map ..
      have lengths := order.names.length_eq
      have stays : (a.renumbering a').ruleset ruleset = ruleset := Renaming.between_of_le (by omega)
      have absent : (ofGrammar a library).entries[ruleset]? = none :=
        Array.getElem?_eq_none (by rw [size_entries]; omega)
      have absent' : (ofGrammar a' library).entries[ruleset]? = none :=
        Array.getElem?_eq_none (by rw [size_entries]; omega)
      rw [stays, absent, absent']
      rfl

theorem renumbered_rules (rule : Nat) :
    (ofGrammar a' library).rules[(a.renumbering a').rule rule]? = (ofGrammar a library).rules[rule]? := by
  have lengths := (order.places_perm here there fun _ _ same => same.ruleCount_eq).length_eq
  by_cases inside : rule < (places Ruleset.ruleCount a.grammar.rulesets).length
  · obtain ⟨before, s, after, k, split, rfl, within⟩ := exists_of_lt_places _ inside
    obtain ⟨before', s', after', split', same⟩ := order.exists_split here there split
    obtain ⟨output, found⟩ : ∃ output, (s.rules.map outputOf)[k]? = some output :=
      ⟨_, List.getElem?_eq_getElem (by rwa [List.length_map])⟩
    rw [renumbering_rule there split split' same within, (ofGrammar_placed library split).rules k output found]
    exact (ofGrammar_placed library split').rules k output (same.outputs ▸ found)
  · have stays : (a.renumbering a').rule rule = rule := Renaming.between_of_le (by omega)
    have absent : (ofGrammar a library).rules[rule]? = none :=
      Array.getElem?_eq_none (by rw [size_rules]; omega)
    have absent' : (ofGrammar a' library).rules[rule]? = none :=
      Array.getElem?_eq_none (by rw [size_rules]; omega)
    rw [stays, absent, absent']

/-- The program of a grammar in another order is its program under other numbers. -/
theorem renumbered : (ofGrammar a library).Renumbered (a.renumbering a') (ofGrammar a' library) := by
  have lengths := order.length_ops here there
  refine ⟨⟨order.renumbered_ops here there library, order.renumbered_entries here there library,
    order.renumbered_rules here there library, ?_, rfl, ?_, ?_⟩, ?_, ?_⟩
  · intro id
    show a'.terminals.toArray[_]? = a.terminals.toArray[id]?
    rw [List.getElem?_toArray, List.getElem?_toArray]
    exact Renaming.getElem?_between order.terminals id
  · exact Renaming.between_injective order.names here.names
  · exact Renaming.between_injective order.terminals here.terminals
  · rw [(ofGrammar_behind a library rfl).1, (ofGrammar_behind a' library lengths).1]
    exact (renumbering_behind a a' 2).symm
  · intro op beyond
    rw [Array.getElem?_eq_none_iff, size_ops] at beyond ⊢
    obtain ⟨k, rfl⟩ : ∃ k, op = 2 + (places Ruleset.opCount a.grammar.rulesets).length + k :=
      ⟨op - 2 - (places Ruleset.opCount a.grammar.rulesets).length, by omega⟩
    rw [renumbering_behind a a' k]
    omega

end AnnotatedGrammar.Reorders

end PegFlow
