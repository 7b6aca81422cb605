/-
# PegFlow.Proofs.Grammar.Acceptable -- which grammars are accepted

A grammar is accepted exactly when it is `Grammar.Acceptable`: names are distinct and one of them
is `return`, what matchers refer to is there, references lead from `return` to every name, and
constants and rules can be checked (`Grammar.exists_annotate?_iff`). None of this is about the order
of rulesets. The annotated grammar then is the given one with its slots laid out, but for annotations
of the other kinds (`Grammar.annotate?_laidOut`).
-/
import PegFlow.Proofs.Grammar.Reachable
import PegFlow.Proofs.Template.Checked

namespace PegFlow

set_option autoImplicit false

open Relation

/-! ## Changes that are not refused -/

/-- What holds of the value of a computation that is not refused. -/
def Gives.accepted (ε : Type) : Gives (Except ε) Unit where
  le _ _ := True
  ensures _ x q := ∃ a, x = .ok a ∧ q () a
  pure h := ⟨_, rfl, h⟩
  bind := by
    rintro α β w x f q r ⟨a, rfl, holds⟩ next
    exact next () a trivial holds

/-- What holds of the value of a computation that is not refused in any state. -/
def Gives.acceptedIn (ε σ : Type) : Gives (StateT σ (Except ε)) Unit where
  le _ _ := True
  ensures _ x q := ∀ before, ∃ a after, x before = .ok (a, after) ∧ q () a
  pure h before := ⟨_, before, rfl, h⟩
  bind := by
    intro α β w x f q r given next before
    obtain ⟨a, between, first, holds⟩ := given before
    obtain ⟨b, after, second, holds'⟩ := next () a trivial holds between
    refine ⟨b, after, ?_, holds'⟩
    show (x before >>= fun p => f p.1 p.2) = _
    rw [first]
    exact second

/-- The values of computations, none of which is refused. -/
theorem Except.mapM_eq_ok_iff {ε α β : Type} {f : α → Except ε β} {xs : List α} {ys : List β} :
    xs.mapM f = .ok ys ↔ xs.map f = ys.map .ok := by
  induction xs generalizing ys with
  | nil =>
      rw [List.mapM_nil, List.map_nil]
      constructor
      · rintro ⟨⟩
        rfl
      · intro h
        rw [List.map_eq_nil_iff.1 h.symm]
        rfl
  | cons x rest ih =>
      rw [List.mapM_cons, List.map_cons]
      constructor
      · intro h
        obtain ⟨y, here, h⟩ := Except.bind_eq_ok h
        obtain ⟨later, others, h⟩ := Except.bind_eq_ok h
        cases h
        rw [List.map_cons, here, ih.1 others]
      · intro h
        obtain ⟨y, later, rfl, here, others⟩ := List.map_eq_cons_iff.1 h.symm
        rw [← here, ih.2 others.symm]
        rfl

theorem Except.exists_of_mapM {ε α β : Type} {f : α → Except ε β} {xs : List α} {ys : List β}
    (h : xs.mapM f = .ok ys) {x : α} (member : x ∈ xs) : ∃ y ∈ ys, f x = .ok y := by
  have inside : f x ∈ ys.map .ok := Except.mapM_eq_ok_iff.1 h ▸ List.mem_map_of_mem member
  obtain ⟨y, there, same⟩ := List.mem_map.1 inside
  exact ⟨y, there, same.symm⟩

/-! ## What a grammar must be -/

/-- The name of a ruleset that the matcher refers to is among these. -/
def Matcher.NamedIn (names : List String) : Matcher → Prop
  | .ref name _ => name ∈ names
  | _ => True

/-- The ranges of a class are in the right order. -/
def Matcher.Compiles : Matcher → Prop
  | .charClass spec _ => ∃ t, Terminal.ofClass? spec = .ok t
  | _ => True

theorem Matcher.NamedIn.blind (names : List String) : Matcher.Blind (Matcher.NamedIn names) := by
  intro ν y
  cases y <;> exact Iff.rfl

theorem Matcher.Compiles.blind : Matcher.Blind Matcher.Compiles := by
  intro ν y
  cases y <;> exact Iff.rfl

/-- Alternatives of the rule agree in their captures, and its template can be evaluated. -/
def Rule.Fits (callbacks constants : List String) (ruleset : String) (r : Rule) : Prop :=
  ∃ patterns captures, Pattern.layOut ruleset 1 false r.pos none r.patterns = .ok (patterns, captures) ∧
    Grammar.checkRule callbacks constants { r with captures } = .ok ()

/-- What a grammar must be to be accepted. -/
structure Grammar.Acceptable (g : Grammar) (callbacks : List String) : Prop where
  distinct : g.names.Nodup
  entry : entryName ∈ g.names
  named : g.Every (Matcher.NamedIn g.names)
  reachable : ∀ name ∈ g.names, ReflTransGen g.RefersTo entryName name
  constants : checkConstants callbacks [] g.constants = .ok ()
  rules : ∀ s ∈ g.rulesets, ∀ r ∈ s.rules, r.Fits callbacks (g.constants.map Constant.name) s.name
  compiles : g.Every Matcher.Compiles

theorem Rule.fits_relabel (ν : Labels) (callbacks constants : List String) (ruleset : String) (r : Rule) :
    (r.relabel ν).Fits callbacks constants ruleset ↔ r.Fits callbacks constants ruleset := by
  have laid := Pattern.layOut_relabel ν.toNodeLabels ruleset 1 false r.pos none r.patterns
  have check : ∀ captures, Grammar.checkRule callbacks constants { r.relabel ν with captures } =
      Grammar.checkRule callbacks constants { r with captures } := fun _ => rfl
  unfold Fits
  simp only [check]
  show (∃ patterns captures,
    Pattern.layOut ruleset 1 false r.pos none (Pattern.relabel ν.toNodeLabels r.patterns) =
      .ok (patterns, captures) ∧ _) ↔ _
  rw [laid]
  cases Pattern.layOut ruleset 1 false r.pos none r.patterns with
  | error e =>
      constructor
      · rintro ⟨_, _, ⟨⟩, -⟩
      · rintro ⟨_, _, ⟨⟩, -⟩
  | ok p =>
      constructor
      · rintro ⟨_, _, ⟨⟩, checked⟩
        exact ⟨p.1, p.2, rfl, checked⟩
      · rintro ⟨_, _, ⟨⟩, checked⟩
        exact ⟨_, _, rfl, checked⟩

namespace Grammar

variable {g g' : Grammar} {callbacks : List String}

theorem acceptable_relabel (ν : Labels) (g : Grammar) :
    (g.relabel ν).Acceptable callbacks ↔ g.Acceptable callbacks := by
  have names := names_relabel ν g
  have named := every_relabel (Matcher.NamedIn.blind g.names ν.toNodeLabels) g
  have compiles := every_relabel (Matcher.Compiles.blind ν.toNodeLabels) g
  have rules : (∀ s ∈ (g.relabel ν).rulesets, ∀ r ∈ s.rules,
        r.Fits callbacks (g.constants.map Constant.name) s.name) ↔
      ∀ s ∈ g.rulesets, ∀ r ∈ s.rules, r.Fits callbacks (g.constants.map Constant.name) s.name := by
    simp only [relabel, Ruleset.relabel, List.forall_mem_map, Rule.fits_relabel]
  constructor
  · intro h
    refine ⟨names ▸ h.distinct, names ▸ h.entry, named.1 (names ▸ h.named), ?_, h.constants, rules.1 h.rules,
      compiles.1 h.compiles⟩
    simpa only [names, refersTo_relabel] using h.reachable
  · intro h
    refine ⟨names.symm ▸ h.distinct, names.symm ▸ h.entry, names.symm ▸ named.2 h.named, ?_, h.constants,
      rules.2 h.rules, compiles.2 h.compiles⟩
    simpa only [names, refersTo_relabel] using h.reachable

/-- What differs in annotations only is acceptable alike. -/
theorem acceptable_of_bare (same : g.bare = g'.bare) : g.Acceptable callbacks ↔ g'.Acceptable callbacks :=
  iff_of_eq (eq_of_bare (F := fun g => g.Acceptable callbacks)
    (fun g => propext (acceptable_relabel .blank g)) same)

/-! ## Stages that succeed -/

theorem resolve?_total (distinct : g.names.Nodup) (named : g.Every (Matcher.NamedIn g.names)) :
    ∃ resolved, g.indexed.resolve? = .ok resolved := by
  have leaf : ∀ (w : Unit) pos (x : Matcher), x.isChoice = false → x.NamedIn g.names →
      (Gives.accepted GrammarError).ensures w (resolveLeaf g.indexed.lookup pos x) fun _ y =>
        y.Every fun _ => True := by
    intro _ pos x leaf known
    cases x with
    | ref name target =>
        obtain ⟨i, here⟩ := List.mem_iff_getElem?.1 known
        refine ⟨.ref name (some i), ?_, Matcher.every_true _⟩
        rw [resolveLeaf, (indexed_get?_iff distinct).2 here]
    | literal | charClass | any => exact ⟨_, rfl, Matcher.every_true _⟩
    | capture | group => cases leaf
  obtain ⟨resolved, h, -⟩ := mapLeavesM_every (Gives.accepted GrammarError) (fun _ _ _ _ h => h)
    (g := g.indexed) leaf named ()
  exact ⟨resolved, h⟩

theorem layOut?_total {constants : List String}
    (rules : ∀ s ∈ g.rulesets, ∀ r ∈ s.rules, r.Fits callbacks constants s.name) :
    ∃ laidOut, g.layOut? = .ok laidOut ∧
      ∀ s ∈ laidOut.rulesets, ∀ r ∈ s.rules, checkRule callbacks constants r = .ok () := by
  have rule : ∀ s ∈ g.rulesets, ∀ r ∈ s.rules, ∀ w : Unit, (Gives.accepted GrammarError).ensures w
      (do
        let laid ← Pattern.layOut s.name 1 false r.pos none r.patterns
        return { r with patterns := laid.1, captures := laid.2 })
      fun _ r => checkRule callbacks constants r = .ok () := by
    intro s hs r hr _
    obtain ⟨patterns, captures, laid, checked⟩ := rules s hs r hr
    refine ⟨{ r with patterns, captures }, ?_, checked⟩
    rw [laid]
    rfl
  obtain ⟨laidOut, h, -, checked⟩ := mapRulesM_rules (Gives.accepted GrammarError) (fun _ _ _ _ h => h) rule ()
  exact ⟨laidOut, h, checked⟩

/-- Each rule of a grammar whose slots were laid out is there with its slots and its layout. -/
theorem exists_of_layOut? {laidOut : Grammar} (h : g.layOut? = .ok laidOut) {s : Ruleset} (hs : s ∈ g.rulesets)
    {r : Rule} (hr : r ∈ s.rules) : ∃ s' ∈ laidOut.rulesets, ∃ patterns captures,
      Pattern.layOut s.name 1 false r.pos none r.patterns = .ok (patterns, captures) ∧
        { r with patterns, captures } ∈ s'.rules := by
  obtain ⟨rulesets, laid, h⟩ := Except.bind_eq_ok h
  cases h
  obtain ⟨s', hs', h⟩ := Except.exists_of_mapM laid hs
  obtain ⟨rules, laid, h⟩ := Except.bind_eq_ok h
  cases h
  obtain ⟨r', hr', h⟩ := Except.exists_of_mapM laid hr
  obtain ⟨⟨patterns, captures⟩, laid, h⟩ := Except.bind_eq_ok h
  cases h
  exact ⟨_, hs', patterns, captures, laid, hr'⟩

theorem intern?_total (compiles : g.Every Matcher.Compiles) :
    ∃ interned table, g.intern? = .ok (interned, table) := by
  have leaf : ∀ (w : Unit) pos (x : Matcher), x.isChoice = false → x.Compiles →
      (Gives.acceptedIn GrammarError TerminalTable).ensures w (internLeaf pos x) fun _ y =>
        y.Every fun _ => True := by
    intro _ pos x leaf compiles before
    cases x with
    | charClass spec old =>
        obtain ⟨t, own⟩ := compiles
        simp only [internLeaf, TerminalTable.charClass_of_ok own]
        exact ⟨_, _, rfl, Matcher.every_true _⟩
    | ref | literal | any => exact ⟨_, _, rfl, Matcher.every_true _⟩
    | capture | group => cases leaf
  obtain ⟨interned, table, h, -⟩ := mapLeavesM_every (Gives.acceptedIn GrammarError TerminalTable)
    (fun _ _ _ _ h => h) leaf compiles () .empty
  exact ⟨interned, table, h⟩

/-- Templates are checked alike where layouts are the same. -/
theorem checkTemplates_relabel {ν : Labels} (captures : ν.captures = Labels.keep.captures) (g : Grammar) :
    (g.relabel ν).checkTemplates callbacks = .ok () ↔ g.checkTemplates callbacks = .ok () := by
  have rule : ∀ (constants : List String) (r : Rule),
      checkRule callbacks constants (r.relabel ν) = checkRule callbacks constants r := by
    intro constants r
    unfold checkRule
    rw [show (r.relabel ν).captures = r.captures from congrFun captures r.captures]
    rfl
  have constants : (g.relabel ν).constants = g.constants := rfl
  rw [checkTemplates_eq_ok_iff, checkTemplates_eq_ok_iff, constants]
  simp only [relabel, Ruleset.relabel, List.forall_mem_map, rule]

end Grammar

/-! ## Accepted grammars -/

/-- Labels that keep slots and their layouts, and do not look at the other annotations. -/
structure Labels.KeepsSlots (ν : Labels) : Prop where
  kept : ν.keepSlots = ν
  id : ∀ old new, ν.id new = ν.id old
  target : ∀ name old new, ν.target name new = ν.target name old
  literal : ∀ text old new, ν.literal text new = ν.literal text old
  charClass : ∀ spec old new, ν.charClass spec new = ν.charClass spec old
  any : ∀ old new, ν.any new = ν.any old
  canFail : ∀ old new, ν.canFail new = ν.canFail old
  lookup : ∀ old new, ν.lookup new = ν.lookup old
  maxId : ∀ old new, ν.maxId new = ν.maxId old

/-- The labels that keep slots and layouts and blank the rest. -/
def Labels.slotsOnly : Labels := { blank with slot := keep.slot, captures := keep.captures }

theorem Labels.slotsOnly_keepsSlots : slotsOnly.KeepsSlots :=
  ⟨rfl, fun _ _ => rfl, fun _ _ _ => rfl, fun _ _ _ => rfl, fun _ _ _ => rfl, fun _ _ => rfl, fun _ _ => rfl,
    fun _ _ => rfl, fun _ _ => rfl⟩

namespace Grammar

variable {g : Grammar} {callbacks : List String} {a : AnnotatedGrammar}

theorem indexed_unseen {ν : Labels} (lookup : ∀ old new, ν.lookup new = ν.lookup old) (g : Grammar) :
    g.indexed.relabel ν = g.relabel ν := by
  rw [relabel, relabel, lookup g.lookup]
  rfl

/-- Labels for the other annotations are the same before and after the slots are laid out. -/
theorem annotate?_laidOut {ν : Labels} (keeps : ν.KeepsSlots) (accepted : g.annotate? callbacks = .ok a) :
    (g.relabel ν).layOut? = .ok (a.grammar.relabel ν) := by
  obtain ⟨resolved, laidOut, interned, table, -, isResolved, isLaidOut, isInterned, -, grammar, -⟩ :=
    annotate?_stages accepted
  have before : resolved.relabel ν = g.relabel ν := calc
    resolved.relabel ν = g.number.indexed.relabel ν := resolve?_unseen keeps.target isResolved
    _ = g.number.relabel ν := indexed_unseen keeps.lookup g.number
    _ = g.relabel ν := number_unseen keeps.id keeps.maxId g
  have after : a.grammar.relabel ν = laidOut.relabel ν := by
    rw [grammar]
    exact marked_unseen keeps.literal keeps.charClass keeps.any keeps.canFail isInterned
  rw [← before, after, layOut?_relabel, isLaidOut, keeps.kept]
  rfl

/-- The labels that keep targets and blank the rest. -/
def targetsOnly : Labels := { Labels.blank with target := Labels.keep.target }

/-- References in an annotated grammar have the places of what they name. -/
theorem annotate?_named (accepted : g.annotate? callbacks = .ok a) :
    a.grammar.Every (Matcher.Named g.names) := by
  obtain ⟨resolved, laidOut, interned, table, -, isResolved, isLaidOut, isInterned, -, grammar, -⟩ :=
    annotate?_stages accepted
  have same : a.grammar.relabel targetsOnly = resolved.relabel targetsOnly := calc
    a.grammar.relabel targetsOnly = interned.markFailing.relabel targetsOnly := by rw [grammar]
    _ = laidOut.relabel targetsOnly :=
      marked_unseen (fun _ _ _ => rfl) (fun _ _ _ => rfl) (fun _ _ => rfl) (fun _ _ => rfl) isInterned
    _ = resolved.relabel targetsOnly := layOut?_unseen (fun _ _ => rfl) (fun _ _ => rfl) isLaidOut
  have blind : ∀ y : Matcher, (y.relabel targetsOnly.toNodeLabels).Named g.names ↔ y.Named g.names := by
    intro y
    cases y <;> exact Iff.rfl
  rw [← every_relabel blind, same, every_relabel blind, ← names_of_bare (number_bare g)]
  exact (resolve?_named isResolved).2

theorem Matcher.Named.namedIn {names : List String} {x : Matcher} (named : x.Named names) :
    x.NamedIn names := by
  cases x with
  | ref name target =>
      obtain ⟨ruleset, -, here⟩ := named
      exact List.mem_of_getElem? here
  | capture | group | literal | charClass | any => trivial

theorem annotate?_fits (accepted : g.annotate? callbacks = .ok a) :
    ∀ s ∈ g.rulesets, ∀ r ∈ s.rules, r.Fits callbacks (g.constants.map Constant.name) s.name := by
  have laid := annotate?_laidOut Labels.slotsOnly_keepsSlots accepted
  obtain ⟨-, -, -, -, -, -, -, -, -, -, checked⟩ := annotate?_stages accepted
  rw [← checkTemplates_relabel (ν := .slotsOnly) rfl] at checked
  obtain ⟨-, rules⟩ := checkTemplates_eq_ok_iff.1 checked
  have constants : (a.grammar.relabel .slotsOnly).constants = g.constants := annotate?_constants accepted
  intro s hs r hr
  obtain ⟨s', hs', patterns, captures, fits, hr'⟩ :=
    exists_of_layOut? laid (List.mem_map_of_mem hs) (List.mem_map_of_mem hr)
  have check := rules s' hs' _ hr'
  rw [constants] at check
  exact (Rule.fits_relabel .slotsOnly callbacks _ s.name r).1 ⟨patterns, captures, fits, check⟩

theorem annotate?_reachable (accepted : g.annotate? callbacks = .ok a) :
    g.names.Nodup ∧ entryName ∈ g.names ∧ ∀ name ∈ g.names, ReflTransGen g.RefersTo entryName name := by
  obtain ⟨entry, isEntry, h⟩ := Except.bind_eq_ok accepted
  obtain ⟨resolved, isResolved, h⟩ := Except.bind_eq_ok h
  obtain ⟨⟨⟩, reached, -⟩ := Except.bind_eq_ok h
  have bare : resolved.bare = g.bare := (resolve?_bare isResolved).trans (number_bare g)
  have numbered : g.number.names = g.names := names_of_bare (number_bare g)
  have names : resolved.names = g.names := names_of_bare bare
  obtain ⟨distinct, here⟩ := entry?_eq_ok_iff.1 isEntry
  have named := (resolve?_named isResolved).2
  rw [numbered] at distinct here named
  rw [← names] at distinct here named
  have paths := (checkReachable_eq_ok_iff distinct named here).1 reached
  have refers : resolved.RefersTo = g.RefersTo := eq_of_bare (refersTo_relabel .blank) bare
  rw [refers, names] at paths
  exact ⟨names ▸ distinct, names ▸ List.mem_of_getElem? here, paths⟩

theorem acceptable_of_annotate? (accepted : g.annotate? callbacks = .ok a) : g.Acceptable callbacks := by
  have same := annotate?_unseen accepted
  obtain ⟨distinct, entry, reachable⟩ := annotate?_reachable accepted
  obtain ⟨constants, -⟩ := annotate?_checked accepted
  rw [annotate?_constants accepted] at constants
  refine ⟨distinct, entry, ?_, reachable, constants, annotate?_fits accepted, ?_⟩
  · rw [← every_of_bare (Matcher.NamedIn.blind g.names) same]
    exact (annotate?_named accepted).imp fun _ named => Matcher.Named.namedIn named
  · rw [← every_of_bare Matcher.Compiles.blind same]
    refine (annotate?_linked accepted).every.imp fun x linked => ?_
    cases x with
    | charClass spec old =>
        obtain ⟨id, t, -, own, -⟩ := linked
        exact ⟨t, own⟩
    | capture | group | ref | literal | any => trivial

/-- No stage refuses an acceptable grammar. -/
theorem Acceptable.annotate? (acceptable : g.Acceptable callbacks) : ∃ a, g.annotate? callbacks = .ok a := by
  have numbered := (acceptable_of_bare (number_bare g)).2 acceptable
  obtain ⟨entry, here⟩ := List.mem_iff_getElem?.1 numbered.entry
  have isEntry : g.number.entry? = .ok entry := entry?_eq_ok_iff.2 ⟨numbered.distinct, here⟩
  obtain ⟨resolved, isResolved⟩ := resolve?_total numbered.distinct numbered.named
  have resolvedBare := resolve?_bare isResolved
  have names : resolved.names = g.number.names := names_of_bare resolvedBare
  have whole := (acceptable_of_bare resolvedBare).2 numbered
  have reached : resolved.checkReachable entry = .ok () := by
    have named := (resolve?_named isResolved).2
    rw [← names] at named here
    exact (checkReachable_eq_ok_iff whole.distinct named here).2 whole.reachable
  obtain ⟨laidOut, isLaidOut, rules⟩ := layOut?_total whole.rules
  have laidOutBare := layOut?_bare isLaidOut
  obtain ⟨interned, table, isInterned⟩ :=
    intern?_total ((every_of_bare Matcher.Compiles.blind laidOutBare).2 whole.compiles)
  have after : interned.markFailing.relabel .slotsOnly = laidOut.relabel .slotsOnly :=
    marked_unseen (fun _ _ _ => rfl) (fun _ _ _ => rfl) (fun _ _ => rfl) (fun _ _ => rfl) isInterned
  have constants : laidOut.constants = resolved.constants :=
    eq_of_bare (F := Grammar.constants) (fun _ => rfl) laidOutBare
  have checked : interned.markFailing.checkTemplates callbacks = .ok () := by
    rw [← checkTemplates_relabel (ν := .slotsOnly) rfl, after, checkTemplates_relabel (ν := .slotsOnly) rfl,
      checkTemplates_eq_ok_iff, constants]
    exact ⟨whole.constants, rules⟩
  refine ⟨⟨interned.markFailing, table.terminals, entry, interned.markFailing.warnings⟩, ?_⟩
  unfold Grammar.annotate?
  simp only [isEntry, isResolved, reached, isLaidOut, isInterned, checked, bind, Except.bind]
  rfl

/-- A grammar is accepted exactly when it is acceptable. -/
theorem exists_annotate?_iff : (∃ a, g.annotate? callbacks = .ok a) ↔ g.Acceptable callbacks := by
  constructor
  · rintro ⟨a, accepted⟩
    exact acceptable_of_annotate? accepted
  · exact Acceptable.annotate?

end Grammar

end PegFlow
