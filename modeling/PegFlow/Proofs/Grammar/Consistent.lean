/-
# PegFlow.Proofs.Grammar.Consistent -- layouts say where captures stand

A grammar whose references are in order is refused for its captures exactly when the
alternatives of some choice record captures of other arities than its first one, and else its
layouts are consistent: every way through a pattern of a rule meets the slots of the layout in
order, the layout says which of them are repeated, and `Matcher.slots` lists the slots inside
each matcher (`Grammar.layouts_consistent`).
-/
import PegFlow.Proofs.Grammar.Arities
import PegFlow.Proofs.Program.Rename

namespace PegFlow

set_option autoImplicit false
set_option linter.unusedSectionVars false

/-! ## Annotations of other kinds -/

section

variable (ν : NodeLabels) (repeated : Bool)

mutual

theorem Matcher.arities_relabel (repeated : Bool) : ∀ x : Matcher,
    (x.relabel ν).arities repeated = x.arities repeated
  | .capture patterns _ => by
      rw [Matcher.relabel, Matcher.arities, Matcher.arities, Pattern.arities_relabel repeated patterns]
  | .group patterns => Pattern.arities_relabel repeated patterns
  | .ref _ _ => rfl
  | .literal _ _ => rfl
  | .charClass _ _ => rfl
  | .any _ => rfl

theorem Token.arities_relabel (repeated : Bool) : ∀ ts : List Token,
    Token.arities repeated (Token.relabel ν ts) = Token.arities repeated ts
  | [] => rfl
  | ⟨matcher, _, _, _, _, _, _⟩ :: rest => by
      rw [Token.relabel, Token.arities, Token.arities, matcher.arities_relabel, Token.arities_relabel _ rest]

theorem Pattern.arities_relabel (repeated : Bool) : ∀ ps : List Pattern,
    Pattern.arities repeated (Pattern.relabel ν ps) = Pattern.arities repeated ps
  | [] => rfl
  | ⟨tokens, _, _⟩ :: _ => Token.arities_relabel repeated tokens

end

theorem Choice.even_relabel (ps : List Pattern) :
    (⟨repeated, Pattern.relabel ν ps⟩ : Choice).Even ↔ (⟨repeated, ps⟩ : Choice).Even := by
  have each {layout : List Bool} : ∀ ps : List Pattern,
      (∀ x ∈ Pattern.relabel ν ps, Token.arities repeated x.tokens = layout) ↔
        ∀ x ∈ ps, Token.arities repeated x.tokens = layout := by
    intro ps
    induction ps with
    | nil => exact Iff.rfl
    | cons x rest ih =>
        obtain ⟨tokens, canFail, id⟩ := x
        rw [Pattern.relabel, List.forall_mem_cons, List.forall_mem_cons, ih, Token.arities_relabel]
  unfold Choice.Even
  rw [Pattern.arities_relabel, each]

mutual

theorem Matcher.even_relabel (repeated : Bool) : ∀ x : Matcher,
    (x.relabel ν).Even repeated ↔ x.Even repeated
  | .capture patterns _ => by
      rw [Matcher.relabel, Matcher.even_capture, Matcher.even_capture, Choice.even_relabel,
        Pattern.evenIn_relabel repeated patterns]
  | .group patterns => by
      rw [Matcher.relabel, Matcher.even_group, Matcher.even_group, Choice.even_relabel,
        Pattern.evenIn_relabel repeated patterns]
  | .ref _ _ => Iff.rfl
  | .literal _ _ => Iff.rfl
  | .charClass _ _ => Iff.rfl
  | .any _ => Iff.rfl

theorem Token.even_relabel (repeated : Bool) : ∀ ts : List Token,
    Token.Even repeated (Token.relabel ν ts) ↔ Token.Even repeated ts
  | [] => Iff.rfl
  | ⟨matcher, _, _, _, _, _, _⟩ :: rest => by
      rw [Token.relabel, Token.even_cons, Token.even_cons, matcher.even_relabel, Token.even_relabel _ rest]

theorem Pattern.evenIn_relabel (repeated : Bool) : ∀ ps : List Pattern,
    Pattern.EvenIn repeated (Pattern.relabel ν ps) ↔ Pattern.EvenIn repeated ps
  | [] => Iff.rfl
  | ⟨tokens, _, _⟩ :: rest => by
      rw [Pattern.relabel, Pattern.evenIn_cons, Pattern.evenIn_cons, Token.even_relabel _ tokens,
        Pattern.evenIn_relabel _ rest]

end

end

theorem Grammar.uneven_relabel (ν : Labels) (g : Grammar) : (g.relabel ν).Uneven ↔ g.Uneven := by
  have rule (r : Rule) : (∃ c ∈ (r.relabel ν).choices, ¬ c.Even) ↔ ∃ c ∈ r.choices, ¬ c.Even := by
    rw [← not_iff_not]
    push Not
    rw [Rule.even_iff, Rule.even_iff]
    exact and_congr (Choice.even_relabel _ _ _) (Pattern.evenIn_relabel _ _ _)
  simp only [Uneven, relabel, Ruleset.relabel, List.mem_map, exists_exists_and_eq_and, rule]

section

variable {ν : NodeLabels} (slot : ν.slot = NodeLabels.keep.slot)

include slot

mutual

theorem Matcher.numbered_relabel : ∀ (x : Matcher) (next : Nat),
    (x.relabel ν).Numbered next ↔ x.Numbered next
  | .capture patterns _, next => by
      rw [Matcher.relabel, slot, Matcher.Numbered, Matcher.Numbered, Pattern.numbered_relabel patterns]
      exact Iff.rfl
  | .group patterns, next => Pattern.numbered_relabel patterns next
  | .ref _ _, _ => Iff.rfl
  | .literal _ _, _ => Iff.rfl
  | .charClass _ _, _ => Iff.rfl
  | .any _, _ => Iff.rfl

theorem Token.numbered_relabel : ∀ (ts : List Token) (next : Nat),
    Token.Numbered next (Token.relabel ν ts) ↔ Token.Numbered next ts
  | [], _ => Iff.rfl
  | ⟨matcher, _, _, _, _, _, _⟩ :: rest, next => by
      rw [Token.relabel, Token.Numbered, Token.Numbered, matcher.numbered_relabel,
        Matcher.slots_relabel slot matcher, Token.numbered_relabel rest]

theorem Pattern.numbered_relabel : ∀ (ps : List Pattern) (next : Nat),
    Pattern.Numbered next (Pattern.relabel ν ps) ↔ Pattern.Numbered next ps
  | [], _ => Iff.rfl
  | ⟨tokens, _, _⟩ :: rest, next => by
      rw [Pattern.relabel, Pattern.Numbered, Pattern.Numbered, Token.numbered_relabel tokens,
        Pattern.numbered_relabel rest]

end

end

/-! ## Accepted grammars -/

namespace Grammar

variable {g : Grammar} {callbacks : List String} {a : AnnotatedGrammar}

theorem annotate?_even (accepted : g.annotate? callbacks = .ok a) : ¬ a.grammar.Uneven := by
  obtain ⟨resolved, laidOut, interned, table, -, isResolved, isLaidOut, -, -, -, -⟩ :=
    annotate?_stages accepted
  have same : resolved.bare = a.grammar.bare :=
    ((resolve?_bare isResolved).trans (number_bare g)).trans (annotate?_unseen accepted).symm
  have uneven : resolved.Uneven = a.grammar.Uneven :=
    eq_of_bare (fun g => propext (uneven_relabel .blank g)) same
  obtain ⟨even, -⟩ | ⟨-, e, refused, -⟩ := layOut?_laysOut resolved
  · rwa [← uneven]
  · rw [isLaidOut] at refused
    cases refused

theorem annotate?_numbered (accepted : g.annotate? callbacks = .ok a) :
    ∀ s ∈ a.grammar.rulesets, ∀ r ∈ s.rules, r.Numbered := by
  have laid := annotate?_laidOut Labels.slotsOnly_keepsSlots accepted
  obtain ⟨-, laidOut, isLaidOut, numbered⟩ | ⟨-, e, refused, -⟩ := layOut?_laysOut (g.relabel .slotsOnly)
  · rw [laid] at isLaidOut
    cases isLaidOut
    intro s hs r hr
    obtain ⟨captures, slots⟩ := numbered _ (List.mem_map_of_mem hs) _ (List.mem_map_of_mem hr)
    exact ⟨captures.trans (Pattern.arities_relabel _ _ _), (Pattern.numbered_relabel (ν := Labels.slotsOnly.toNodeLabels) rfl _ _).1 slots⟩
  · rw [laid] at refused
    cases refused

end Grammar

/-! ## What stands inside -/

mutual

theorem Matcher.sites_slots (repeated looked repeated' looked' : Bool) : ∀ x : Matcher,
    (x.sites repeated looked).map Site.slot = (x.sites repeated' looked').map Site.slot
  | .capture patterns _ => congrArg (_ :: ·) (Pattern.sites_slots repeated looked repeated' looked' patterns)
  | .group patterns => Pattern.sites_slots repeated looked repeated' looked' patterns
  | .ref _ _ => rfl
  | .literal _ _ => rfl
  | .charClass _ _ => rfl
  | .any _ => rfl

theorem Token.sites_slots (repeated looked repeated' looked' : Bool) : ∀ ts : List Token,
    (Token.sites repeated looked ts).map Site.slot = (Token.sites repeated' looked' ts).map Site.slot
  | [] => rfl
  | ⟨matcher, _, again, ahead, notAhead, _, _⟩ :: rest => by
      rw [Token.sites, Token.sites, List.map_append, List.map_append,
        Matcher.sites_slots _ _ (repeated' || again) (looked' || (ahead || notAhead)) matcher,
        Token.sites_slots _ _ repeated' looked' rest]

theorem Pattern.sites_slots (repeated looked repeated' looked' : Bool) : ∀ ps : List Pattern,
    (Pattern.sites repeated looked ps).map Site.slot = (Pattern.sites repeated' looked' ps).map Site.slot
  | [] => rfl
  | ⟨tokens, _, _⟩ :: rest => by
      rw [Pattern.sites, Pattern.sites, List.map_append, List.map_append,
        Token.sites_slots _ _ repeated' looked' tokens, Pattern.sites_slots _ _ repeated' looked' rest]

end

/-- Somewhere around the matcher slots are counted from some slot on, and its choices are even. -/
def Matcher.Ordered (x : Matcher) : Prop := ∃ next repeated, x.Numbered next ∧ x.Even repeated

mutual

theorem Matcher.ordered_inside : ∀ {x : Matcher} {next : Nat} {repeated : Bool}, x.Numbered next →
    x.Even repeated → ∀ t ∈ Pattern.allTokensIn x, t.matcher.Ordered
  | .capture _ _, _, _, ⟨_, numbered⟩, even, t, member =>
      Pattern.ordered_inside numbered (Matcher.even_capture.1 even).2 t member
  | .group _, _, _, numbered, even, t, member =>
      Pattern.ordered_inside numbered (Matcher.even_group.1 even).2 t member

theorem Token.ordered_inside : ∀ {ts : List Token} {next : Nat} {repeated : Bool}, Token.Numbered next ts →
    Token.Even repeated ts → ∀ t ∈ Pattern.allTokensOf ts, t.matcher.Ordered
  | ⟨_, _, _, _, _, _, _⟩ :: _, _, _, ⟨here, later⟩, even, t, member => by
      obtain ⟨evenHere, evenLater⟩ := Token.even_cons.1 even
      obtain rfl | member := List.mem_cons.1 member
      · exact ⟨_, _, here, evenHere⟩
      · obtain inner | after := List.mem_append.1 member
        · exact Matcher.ordered_inside here evenHere t inner
        · exact Token.ordered_inside later evenLater t after

theorem Pattern.ordered_inside : ∀ {ps : List Pattern} {next : Nat} {repeated : Bool},
    Pattern.Numbered next ps → Pattern.EvenIn repeated ps → ∀ t ∈ Pattern.allTokens ps, t.matcher.Ordered
  | ⟨_, _, _⟩ :: _, _, _, ⟨here, later⟩, even, t, member => by
      obtain ⟨evenHere, evenLater⟩ := Pattern.evenIn_cons.1 even
      obtain first | after := List.mem_append.1 member
      · exact Token.ordered_inside here evenHere t first
      · exact Pattern.ordered_inside later evenLater t after

end

theorem Matcher.Ordered.mem_slots_iff {x : Matcher} (ordered : x.Ordered) (slot : Nat) :
    slot ∈ x.slots ↔ ∃ site ∈ x.sites false false, site.slot = slot := by
  obtain ⟨next, repeated, numbered, even⟩ := ordered
  rw [Matcher.mem_slots_iff numbered even false, ← List.mem_map, ← List.mem_map,
    Matcher.sites_slots repeated false false false]

theorem Matcher.Ordered.nodup {x : Matcher} (ordered : x.Ordered) : x.slots.Nodup := by
  obtain ⟨next, repeated, numbered, -⟩ := ordered
  rw [numbered.slots_eq]
  exact List.nodup_range'

/-! ## Rules -/

/-- The layout of a rule says where its captures stand. -/
structure Rule.Consistent (r : Rule) : Prop where
  /-- Every way through a pattern meets the slots of the layout in order. -/
  meets : ∀ x ∈ r.patterns, ∀ slots, Token.Meets x.tokens slots → slots = List.range' 1 r.captures.length
  /-- A slot is repeated if all its captures are, and single if none is. -/
  repeats : ∀ k < r.captures.length,
    (r.captures[k]? = some true ↔ ∀ site ∈ r.sites, site.slot = k + 1 → site.repeated = true) ∧
      (r.captures[k]? = some false ↔ ∀ site ∈ r.sites, site.slot = k + 1 → site.repeated = false)
  /-- The slots of a matcher are those of the captures inside it, in all alternatives. -/
  inside : ∀ t ∈ Pattern.allTokens r.patterns, t.matcher.slots.Nodup ∧
    ∀ slot, slot ∈ t.matcher.slots ↔ ∃ site ∈ t.matcher.sites false false, site.slot = slot

namespace Rule

variable {r : Rule}

theorem Numbered.firstSlots_eq (numbered : r.Numbered) :
    Matcher.firstSlots r.patterns = List.range' 1 r.captures.length := by
  rw [numbered.2.slots_eq, numbered.1, Pattern.length_arities]

/-- Every site of a rule is repeated as the layout says. -/
theorem Numbered.fits (numbered : r.Numbered) (even : ∀ c ∈ r.choices, c.Even) :
    ∀ site ∈ r.sites, site.Fits 1 r.captures := by
  obtain ⟨choice, evenIn⟩ := Rule.even_iff.1 even
  rw [numbered.1]
  exact Pattern.sites_fit false false numbered.2 evenIn choice

/-- Every slot of the layout has a site. -/
theorem Numbered.exists_site (numbered : r.Numbered) {k : Nat} (lt : k < r.captures.length) :
    ∃ site ∈ r.sites, site.slot = k + 1 := by
  have member : k + 1 ∈ Matcher.firstSlots r.patterns := by
    rw [numbered.firstSlots_eq]
    exact List.mem_range'_1.2 ⟨by omega, by omega⟩
  exact Pattern.exists_site false false member

theorem Numbered.consistent (numbered : r.Numbered) (even : ∀ c ∈ r.choices, c.Even) : r.Consistent := by
  obtain ⟨choice, evenIn⟩ := Rule.even_iff.1 even
  refine ⟨fun x hx slots meets => ?_, fun k lt => ?_, fun t ht => ?_⟩
  · have own := numbered.2.tokens x hx
    rw [meets.eq_slots own (evenIn.tokens x hx), own.slots_eq, ← Token.length_arities false, choice x hx,
      numbered.1]
  · obtain ⟨first, member, slot⟩ := numbered.exists_site lt
    have agrees : ∀ site ∈ r.sites, site.slot = k + 1 → r.captures[k]? = some site.repeated := by
      intro site there same
      have fits := (numbered.fits even site there).2
      rwa [same, Nat.add_sub_cancel] at fits
    have entry (again : Bool) : r.captures[k]? = some again ↔
        ∀ site ∈ r.sites, site.slot = k + 1 → site.repeated = again := by
      constructor
      · intro here site there same
        exact Option.some.inj ((agrees site there same).symm.trans here)
      · intro all
        rw [agrees first member slot, all first member slot]
    exact ⟨entry true, entry false⟩
  · have ordered := Pattern.ordered_inside numbered.2 evenIn t ht
    exact ⟨ordered.nodup, ordered.mem_slots_iff⟩

end Rule

/-- The layout of every rule says where its captures stand. -/
def Grammar.Consistent (g : Grammar) : Prop := ∀ s ∈ g.rulesets, ∀ r ∈ s.rules, r.Consistent

namespace Grammar

theorem consistent_of_numbered {g : Grammar} (even : ¬ g.Uneven)
    (numbered : ∀ s ∈ g.rulesets, ∀ r ∈ s.rules, r.Numbered) : g.Consistent := by
  intro s hs r hr
  refine (numbered s hs r hr).consistent fun c hc => ?_
  by_contra uneven
  exact even ⟨s, hs, r, hr, c, hc, uneven⟩

/-- A grammar whose references are in order is refused for its captures exactly when in some choice
the arities of an alternative differ from those of the first; else its slots are laid out, and the
layouts of its rules, also of the accepted grammar, say where captures stand. -/
theorem layouts_consistent {g resolved : Grammar} {entry : Nat} (isEntry : g.number.entry? = .ok entry)
    (isResolved : g.number.indexed.resolve? = .ok resolved) (reached : resolved.checkReachable entry = .ok ())
    (callbacks : List String) :
    ((∃ ruleset expected found pos,
        g.annotate? callbacks = .error (.captureMismatch ruleset expected found pos)) ↔ g.Uneven) ∧
      (¬ g.Uneven → ∃ laidOut, resolved.layOut? = .ok laidOut ∧ laidOut.bare = g.bare ∧ laidOut.Consistent) ∧
      ∀ a, g.annotate? callbacks = .ok a → a.grammar.Consistent := by
  have resolvedBare : resolved.bare = g.bare := (resolve?_bare isResolved).trans (number_bare g)
  have uneven : ∀ {g' : Grammar}, g'.bare = g.bare → (g'.Uneven ↔ g.Uneven) := fun same =>
    iff_of_eq (eq_of_bare (fun g => propext (uneven_relabel .blank g)) same)
  have stages : g.annotate? callbacks = (do
      let laidOut ← resolved.layOut?
      let p ← laidOut.intern?
      p.1.markFailing.checkTemplates callbacks
      return ⟨p.1.markFailing, p.2.terminals, entry, p.1.markFailing.warnings⟩) := by
    rw [annotate?, isEntry, isResolved]
    show (resolved.checkReachable entry >>= fun _ => _) = _
    rw [reached]
    rfl
  refine ⟨?_, fun even => ?_, fun a accepted => ?_⟩
  · rw [stages, ← uneven resolvedBare]
    obtain ⟨even, laidOut, isLaidOut, -⟩ | ⟨fails, e, refused, ruleset, expected, found, pos, rfl⟩ :=
      layOut?_laysOut resolved
    · refine iff_of_false ?_ even
      rintro ⟨ruleset, expected, found, pos, refused⟩
      rw [isLaidOut] at refused
      have unmatched := (intern?_unmatched laidOut).bind fun p _ =>
        (checkTemplates_unmatched p.1.markFailing callbacks).bind fun _ _ => .ok (⟨p.1.markFailing,
          p.2.terminals, entry, p.1.markFailing.warnings⟩ : AnnotatedGrammar)
      exact unmatched _ refused ⟨ruleset, expected, found, pos, rfl⟩
    · rw [refused]
      exact iff_of_true ⟨ruleset, expected, found, pos, rfl⟩ (not_not.1 fails)
  · obtain ⟨-, laidOut, isLaidOut, numbered⟩ | ⟨fails, -⟩ := layOut?_laysOut resolved
    · have same := (layOut?_bare isLaidOut).trans resolvedBare
      exact ⟨laidOut, isLaidOut, same, consistent_of_numbered (mt (uneven same).1 even) numbered⟩
    · exact absurd (mt (uneven resolvedBare).1 even) fails
  · exact consistent_of_numbered (annotate?_even accepted) (annotate?_numbered accepted)

/-- A letter, or after a mark another one, once or again and again; then letters after commas. -/
def listed (again : Bool) : Grammar :=
  let other := Token.capture [.ofTokens [.literal "b"]]
  Grammar.empty.addRuleset "return"
    [.ofPatterns
      [.ofTokens
        [.capture
          [.ofTokens [.capture [.ofTokens [.literal "a"]]],
            .ofTokens [.literal "-", if again then other.star else other]],
          (Token.group [.ofTokens [.literal ",", .capture [.ofTokens [.charClass "a-z"]]]]).star]]
      none]

theorem stages_of_checked {g : Grammar} (h : (do
      let entry ← g.number.entry?
      let resolved ← g.number.indexed.resolve?
      resolved.checkReachable entry) = .ok ()) :
    ∃ entry resolved, g.number.entry? = .ok entry ∧ g.number.indexed.resolve? = .ok resolved ∧
      resolved.checkReachable entry = .ok () := by
  obtain ⟨entry, isEntry, h⟩ := Except.bind_eq_ok h
  obtain ⟨resolved, isResolved, reached⟩ := Except.bind_eq_ok h
  exact ⟨entry, resolved, isEntry, isResolved, reached⟩

/-- With one letter after the mark the alternatives agree and the layout is consistent; with
any number of letters the grammar is refused. -/
theorem layouts_consistent_of_listed :
    (∃ a, (listed false).annotate? [] = .ok a ∧ a.grammar.Consistent ∧
      a.grammar.rulesets.map (fun s => s.rules.map Rule.captures) = [[[false, false, true]]]) ∧
    ∃ ruleset expected found pos,
      (listed true).annotate? [] = .error (.captureMismatch ruleset expected found pos) := by
  constructor
  · obtain ⟨_, _, isEntry, isResolved, reached⟩ := stages_of_checked (g := listed false) (by decide +kernel)
    obtain ⟨a, accepted⟩ : ∃ a, (listed false).annotate? [] = .ok a :=
      Except.eq_ok_of_isSome (by decide +kernel)
    have layout : ((listed false).annotate? []).map
        (fun a => a.grammar.rulesets.map fun s => s.rules.map Rule.captures) =
          .ok [[[false, false, true]]] := by decide +kernel
    rw [accepted] at layout
    exact ⟨a, accepted, (layouts_consistent isEntry isResolved reached []).2.2 a accepted,
      Except.ok.inj layout⟩
  · obtain ⟨_, _, isEntry, isResolved, reached⟩ := stages_of_checked (g := listed true) (by decide +kernel)
    exact (layouts_consistent isEntry isResolved reached []).1.2 (by decide +kernel)

end Grammar

end PegFlow
