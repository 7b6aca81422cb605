/-
# PegFlow.Proofs.Meaning.Tally -- how often a match records a slot

What a match records is tallied against the sites of its captures (`Tally`): every slot has a
site, a slot none of whose sites is repeated is recorded once at most, and a slot that is steady,
none of whose sites is repeated or only looked at, exactly once. By induction on the tree of a
grammar whose slots are in order and whose choices are even, every match of a matcher, of tokens
and of patterns is so (`Matcher.parse_tally`, `Token.parse_tally`, `Pattern.parse_tally`).
-/
import PegFlow.Proofs.Grammar.Consistent
import PegFlow.Proofs.Meaning.Grammar
import PegFlow.Proofs.Meaning.Yields

namespace PegFlow

set_option autoImplicit false

/-! ## Entries -/

/-- The values recorded in a slot, in order. -/
def Capture.entries (slot : Nat) (captures : List Capture) : List Value :=
  captures.filterMap fun c => if c.slot = slot then some c.value else none

theorem Capture.length_entries (slot : Nat) (captures : List Capture) :
    (entries slot captures).length = (captures.map Capture.slot).count slot := by
  induction captures with
  | nil => rfl
  | cons c rest ih =>
      rw [entries] at ih ⊢
      rw [List.map_cons, List.count_cons, List.filterMap_cons, ← ih]
      by_cases same : c.slot = slot
      · simp [same]
      · simp [same]

theorem Capture.entries_append (slot : Nat) (first second : List Capture) :
    entries slot (first ++ second) = entries slot first ++ entries slot second :=
  List.filterMap_append

theorem Capture.map_slot_nulls (slots : List Nat) : (nulls slots).map Capture.slot = slots := by
  rw [nulls, List.map_map]
  exact List.map_id slots

/-! ## Sites -/

/-- The slot has a capture, and none of its captures is under a repetition or only looked at. -/
def Steady (sites : List Site) (slot : Nat) : Prop :=
  (∃ site ∈ sites, site.slot = slot) ∧
    ∀ site ∈ sites, site.slot = slot → site.repeated = false ∧ site.looked = false

instance (sites : List Site) (slot : Nat) : Decidable (Steady sites slot) :=
  inferInstanceAs (Decidable (_ ∧ _))

mutual

/-- What stands inside something that is repeated, or that only looks ahead, does so too. -/
theorem Matcher.sites_around (repeated looked : Bool) : ∀ x : Matcher, ∀ site ∈ x.sites repeated looked,
    (repeated = true → site.repeated = true) ∧ (looked = true → site.looked = true)
  | .capture patterns _, site, member => by
      obtain rfl | inner := List.mem_cons.1 member
      · exact ⟨id, id⟩
      · exact Pattern.sites_around repeated looked patterns site inner
  | .group patterns, site, member => Pattern.sites_around repeated looked patterns site member

theorem Token.sites_around (repeated looked : Bool) : ∀ ts : List Token, ∀ site ∈ Token.sites repeated looked ts,
    (repeated = true → site.repeated = true) ∧ (looked = true → site.looked = true)
  | ⟨matcher, _, again, ahead, notAhead, _, _⟩ :: rest, site, member => by
      obtain here | later := List.mem_append.1 member
      · obtain ⟨repeats, looks⟩ := matcher.sites_around _ _ site here
        exact ⟨fun around => repeats (by rw [around, Bool.true_or]),
          fun around => looks (by rw [around, Bool.true_or])⟩
      · exact Token.sites_around repeated looked rest site later

theorem Pattern.sites_around (repeated looked : Bool) : ∀ ps : List Pattern,
    ∀ site ∈ Pattern.sites repeated looked ps,
      (repeated = true → site.repeated = true) ∧ (looked = true → site.looked = true)
  | ⟨tokens, _, _⟩ :: rest, site, member => by
      obtain here | later := List.mem_append.1 member
      · exact Token.sites_around repeated looked tokens site here
      · exact Pattern.sites_around repeated looked rest site later

end

/-- The sites in patterns are those of the tokens of each. -/
theorem Pattern.mem_sites {repeated looked : Bool} {site : Site} {ps : List Pattern} :
    site ∈ Pattern.sites repeated looked ps ↔ ∃ x ∈ ps, site ∈ Token.sites repeated looked x.tokens := by
  induction ps with
  | nil => simp [Pattern.sites]
  | cons x rest ih =>
      obtain ⟨tokens, _, _⟩ := x
      rw [Pattern.sites, List.mem_append, ih]
      simp

/-- The slots of a matcher are those of all sites inside it, whatever is around it. -/
theorem Matcher.Ordered.mem_slots_around {x : Matcher} (ordered : x.Ordered) (repeated looked : Bool) (slot : Nat) :
    slot ∈ x.slots ↔ ∃ site ∈ x.sites repeated looked, site.slot = slot := by
  rw [ordered.mem_slots_iff, ← List.mem_map, ← List.mem_map, Matcher.sites_slots _ _ repeated looked]

/-- The slots of tokens are those of all sites inside them. -/
theorem Token.mem_slots_iff {ts : List Token} {next : Nat} {around : Bool} (numbered : Token.Numbered next ts)
    (even : Token.Even around ts) (repeated looked : Bool) (slot : Nat) :
    slot ∈ Matcher.tokenSlots ts ↔ ∃ site ∈ Token.sites repeated looked ts, site.slot = slot := by
  constructor
  · exact Token.exists_site repeated looked
  · intro found
    rw [← List.mem_map, Token.sites_slots _ _ around false, List.mem_map] at found
    obtain ⟨site, member, rfl⟩ := found
    rw [numbered.slots_eq, ← Token.length_arities around]
    exact (Token.sites_fit around false numbered even site member).mem_range

/-- The slots of sites in patterns are counted from where those of the patterns are. -/
theorem Pattern.EvenIn.le_site {ps : List Pattern} {next : Nat} {around : Bool} (even : Pattern.EvenIn around ps)
    (numbered : Pattern.Numbered next ps) (repeated looked : Bool) :
    ∀ site ∈ Pattern.sites repeated looked ps, next ≤ site.slot := by
  intro site found
  obtain ⟨x, member, there⟩ := Pattern.mem_sites.1 found
  have slot := (Token.mem_slots_iff (numbered.tokens x member) (even.tokens x member) repeated looked _).2
    ⟨site, there, rfl⟩
  rw [(numbered.tokens x member).slots_eq] at slot
  exact (List.mem_range'_1.1 slot).1

/-- A site of an even choice has its slot in each of the alternatives. -/
theorem Choice.Even.sites {ps : List Pattern} {next : Nat} {around : Bool}
    (numbered : Pattern.Numbered next ps) (choice : (⟨around, ps⟩ : Choice).Even)
    (even : Pattern.EvenIn around ps) (repeated looked : Bool) {x : Pattern} (member : x ∈ ps) :
    ∀ site ∈ Pattern.sites repeated looked ps,
      ∃ own ∈ Token.sites repeated looked x.tokens, own.slot = site.slot := by
  intro site found
  obtain ⟨y, other, there⟩ := Pattern.mem_sites.1 found
  have slots : Matcher.tokenSlots x.tokens = Matcher.tokenSlots y.tokens := by
    rw [(numbered.tokens x member).slots_eq, (numbered.tokens y other).slots_eq,
      ← Token.length_arities around, ← Token.length_arities around, choice x member, choice y other]
  rw [← Token.mem_slots_iff (numbered.tokens x member) (even.tokens x member), slots,
    Token.mem_slots_iff (numbered.tokens y other) (even.tokens y other) repeated looked]
  exact ⟨site, there, rfl⟩

/-! ## Tallies -/

/-- Slots are recorded as often as the sites of their captures say. -/
structure Tally (sites : List Site) (slots : List Nat) : Prop where
  inside : ∀ slot ∈ slots, ∃ site ∈ sites, site.slot = slot
  single : ∀ slot, (∀ site ∈ sites, site.slot = slot → site.repeated = false) → slots.count slot ≤ 1
  once : ∀ slot, Steady sites slot → slots.count slot = 1

namespace Tally

variable {sites more : List Site} {slots others : List Nat}

/-- What only looks ahead records nothing. -/
theorem looked (all : ∀ site ∈ sites, site.looked = true) : Tally sites [] := by
  refine ⟨List.forall_mem_nil _, fun _ _ => Nat.zero_le 1, fun slot steady => ?_⟩
  obtain ⟨⟨site, member, same⟩, none⟩ := steady
  cases (all site member).symm.trans (none site member same).2

/-- What is repeated may be recorded any number of times. -/
theorem repeated (all : ∀ site ∈ sites, site.repeated = true)
    (inside : ∀ slot ∈ slots, ∃ site ∈ sites, site.slot = slot) : Tally sites slots := by
  refine ⟨inside, fun slot none => ?_, fun slot steady => ?_⟩
  · rw [List.count_eq_zero.2]
    · exact Nat.zero_le 1
    intro member
    obtain ⟨site, there, same⟩ := inside slot member
    cases (all site there).symm.trans (none site there same)
  · obtain ⟨⟨site, member, same⟩, none⟩ := steady
    cases (all site member).symm.trans (none site member same).1

/-- What is skipped gets a null in each slot. -/
theorem nulls (distinct : slots.Nodup) (all : ∀ slot, slot ∈ slots ↔ ∃ site ∈ sites, site.slot = slot) :
    Tally sites slots :=
  ⟨fun slot => (all slot).1, fun slot _ => List.nodup_iff_count_le_one.1 distinct slot,
    fun slot steady => List.count_eq_one_of_mem distinct ((all slot).2 steady.1)⟩

/-- More sites of the same slots. -/
theorem widen (tally : Tally sites slots) (sub : sites ⊆ more)
    (same : ∀ site ∈ more, ∃ own ∈ sites, own.slot = site.slot) : Tally more slots := by
  refine ⟨fun slot member => ?_, fun slot none => ?_, fun slot steady => ?_⟩
  · obtain ⟨site, there, eq⟩ := tally.inside slot member
    exact ⟨site, sub there, eq⟩
  · exact tally.single slot fun site member => none site (sub member)
  · obtain ⟨⟨site, member, rfl⟩, none⟩ := steady
    exact tally.once _ ⟨same site member, fun own there => none own (sub there)⟩

/-- One after the other, in slots of their own. -/
theorem append (one : Tally sites slots) (other : Tally more others)
    (apart : ∀ site ∈ sites, ∀ site' ∈ more, site.slot ≠ site'.slot) :
    Tally (sites ++ more) (slots ++ others) := by
  have left {slot : Nat} (member : slot ∈ slots) : ∀ site' ∈ more, site'.slot ≠ slot := by
    obtain ⟨site, there, rfl⟩ := one.inside slot member
    exact fun site' there' => (apart site there site' there').symm
  have right {slot : Nat} (member : slot ∈ others) : ∀ site ∈ sites, site.slot ≠ slot := by
    obtain ⟨site', there, rfl⟩ := other.inside slot member
    exact fun site there' => apart site there' site' there
  refine ⟨fun slot member => ?_, fun slot none => ?_, fun slot steady => ?_⟩
  · obtain here | there := List.mem_append.1 member
    · obtain ⟨site, inside, eq⟩ := one.inside slot here
      exact ⟨site, List.mem_append_left _ inside, eq⟩
    · obtain ⟨site, inside, eq⟩ := other.inside slot there
      exact ⟨site, List.mem_append_right _ inside, eq⟩
  · obtain ⟨here, there⟩ := List.forall_mem_append.1 none
    have first := one.single slot here
    have second := other.single slot there
    rw [List.count_append]
    by_cases member : slot ∈ slots
    · have absent : slot ∉ others := fun both => by
        obtain ⟨site', inside, same⟩ := other.inside slot both
        exact left member site' inside same
      rwa [List.count_eq_zero.2 absent]
    · rwa [List.count_eq_zero.2 member, Nat.zero_add]
  · obtain ⟨⟨site, member, same⟩, none⟩ := steady
    obtain ⟨here, there⟩ := List.forall_mem_append.1 none
    rw [List.count_append]
    obtain inside | inside := List.mem_append.1 member
    · have absent : slot ∉ others := fun both => right both site inside same
      rw [one.once slot ⟨⟨site, inside, same⟩, here⟩, List.count_eq_zero.2 absent]
    · have absent : slot ∉ slots := fun both => left both site inside same
      rw [other.once slot ⟨⟨site, inside, same⟩, there⟩, List.count_eq_zero.2 absent]

/-- What one alternative of an even choice records is tallied by the sites of all. -/
theorem choice {ps : List Pattern} {next : Nat} {around : Bool} (even : (⟨around, ps⟩ : Choice).Even)
    (numbered : Pattern.Numbered next ps) (evenIn : Pattern.EvenIn around ps) (repeated looked : Bool)
    (chosen : ∃ x ∈ ps, Tally (Token.sites repeated looked x.tokens) slots) :
    Tally (Pattern.sites repeated looked ps) slots := by
  obtain ⟨x, member, tally⟩ := chosen
  exact tally.widen (fun site inside => Pattern.mem_sites.2 ⟨x, member, inside⟩)
    (even.sites numbered evenIn repeated looked member)

end Tally

/-! ## Parses -/

/-- Every match records slots as often as the sites say. -/
def Parse.Tallies (sites : List Site) (q : Parse (List Capture)) : Prop :=
  q.Yields fun captures => Tally sites (captures.map Capture.slot)

namespace Parse.Tallies

variable {T : String} {sites more : List Site} {q r : Parse (List Capture)}

theorem nothing : Tally [] (([] : List Capture).map Capture.slot) := .looked (List.forall_mem_nil _)

theorem andThen (one : Tallies sites q) (other : Tallies more r)
    (apart : ∀ site ∈ sites, ∀ site' ∈ more, site.slot ≠ site'.slot) :
    Tallies (sites ++ more) (q.andThen r) :=
  Yields.andThen one other fun first second h h' => by
    rw [List.map_append]
    exact h.append h' apart

/-- A token is tallied by the sites inside it, if these say what it repeats and only looks at. -/
theorem modified (body : Tallies sites q) (required : Bool) {repeated ahead notAhead : Bool} {slots : List Nat}
    (repeats : repeated = true → ∀ site ∈ sites, site.repeated = true)
    (looks : (ahead || notAhead) = true → ∀ site ∈ sites, site.looked = true)
    (distinct : slots.Nodup) (all : ∀ slot, slot ∈ slots ↔ ∃ site ∈ sites, site.slot = slot) :
    Tallies sites (q.modified T required repeated ahead notAhead slots) := by
  refine Yields.modified body (fun ahead => .looked (looks ahead)) (fun again => ⟨?_, ?_⟩) ?_
  · exact .repeated (repeats again) (List.forall_mem_nil _)
  · intro first others h h'
    rw [List.map_append]
    exact .repeated (repeats again) (List.forall_mem_append.2 ⟨h.inside, h'.inside⟩)
  · rw [Capture.map_slot_nulls]
    exact .nulls distinct all

/-- A capture is recorded behind what is inside it. -/
theorem captured {slot : Nat} {own : Site} (body : Tallies sites q) (same : own.slot = slot)
    (apart : ∀ site ∈ sites, site.slot ≠ slot) (tally : Tally [own] [slot]) :
    Tallies (own :: sites) (q.captured T slot) :=
  Yields.captured body fun captures v inside => by
    rw [List.map_append]
    have both := inside.append tally fun site member site' only => by
      rw [List.mem_singleton.1 only, same]
      exact apart site member
    refine both.widen (fun site member => ?_) fun site member => ⟨site, ?_, rfl⟩
    · exact List.mem_cons.2 ((List.mem_append.1 member).symm.imp_left List.mem_singleton.1)
    · exact List.mem_append.2 ((List.mem_cons.1 member).symm.imp_right List.mem_singleton.2)

end Parse.Tallies

section

variable {T : String} {call : Nat → Parse Value}

theorem Pattern.sites_of_plainTarget? {ps : List Pattern} {ruleset : Nat}
    (plain : Pattern.plainTarget? ps = some ruleset) (repeated looked : Bool) :
    Pattern.sites repeated looked ps = [] := by
  unfold Pattern.plainTarget? at plain
  split at plain
  · rfl
  · cases plain

mutual

theorem Matcher.parse_tally (repeated looked : Bool) : ∀ {x : Matcher} {next : Nat} {around : Bool},
    x.Numbered next → x.Even around → (x.parse T call).Tallies (x.sites repeated looked)
  | .capture patterns slot, _, around, ⟨rfl, numbered⟩, even => by
      obtain ⟨choice, evenIn⟩ := Matcher.even_capture.1 even
      have own : Tally [⟨slot, repeated, looked⟩] [slot] := .nulls (List.nodup_singleton slot) fun k => by
        simp [eq_comm]
      rw [Matcher.parse, Matcher.sites]
      split
      · rename_i plain
        rw [Pattern.sites_of_plainTarget? plain]
        exact Parse.Yields.recorded fun _ => own
      · have inside := Parse.Yields.imp (Pattern.parse_tally repeated looked numbered evenIn) fun _ =>
          Tally.choice choice numbered evenIn repeated looked
        refine .captured inside rfl (fun site member => ?_) own
        exact Nat.ne_of_gt (evenIn.le_site numbered repeated looked site member)
  | .group patterns, _, _, numbered, even => by
      obtain ⟨choice, evenIn⟩ := Matcher.even_group.1 even
      exact Parse.Yields.imp (Pattern.parse_tally repeated looked numbered evenIn) fun _ =>
        .choice choice numbered evenIn repeated looked
  | .ref _ none, _, _, _, _ => Parse.Yields.fail
  | .ref _ (some _), _, _, _, _ => Parse.Yields.silent Parse.Tallies.nothing
  | .literal text _, _, _, _, _ => Parse.Yields.terminal Parse.Tallies.nothing (.literal text)
  | .charClass spec _, _, _, _, _ => by
      rw [Matcher.parse]
      split
      · exact Parse.Yields.terminal Parse.Tallies.nothing _
      · exact Parse.Yields.fail
  | .any _, _, _, _, _ => Parse.Yields.terminal Parse.Tallies.nothing .any

theorem Token.parse_tally (repeated looked : Bool) : ∀ {ts : List Token} {next : Nat} {around : Bool},
    Token.Numbered next ts → Token.Even around ts → (Token.parse T call ts).Tallies (Token.sites repeated looked ts)
  | [], _, _, _, _ => Parse.Yields.pass Parse.Tallies.nothing
  | ⟨matcher, required, again, ahead, notAhead, _, _⟩ :: rest, next, around, ⟨here, later⟩, even => by
      obtain ⟨evenHere, evenLater⟩ := Token.even_cons.1 even
      have ordered : matcher.Ordered := ⟨next, _, here, evenHere⟩
      have slots := ordered.mem_slots_around (repeated || again) (looked || (ahead || notAhead))
      have sites := matcher.sites_around (repeated || again) (looked || (ahead || notAhead))
      rw [Token.parse, Token.sites]
      refine .andThen (.modified (Matcher.parse_tally _ _ here evenHere) required ?_ ?_ ordered.nodup slots)
        (Token.parse_tally repeated looked later evenLater) fun site first site' second same => ?_
      · exact fun again site member => (sites site member).1 (by rw [again, Bool.or_true])
      · exact fun looks site member => (sites site member).2 (by rw [looks, Bool.or_true])
      · have before := (slots site.slot).2 ⟨site, first, rfl⟩
        have after := (Token.mem_slots_iff later evenLater repeated looked site'.slot).2 ⟨site', second, rfl⟩
        rw [here.slots_eq] at before
        rw [later.slots_eq] at after
        have := (List.mem_range'_1.1 before).2
        have := (List.mem_range'_1.1 after).1
        omega

/-- The captures of a match are those of one alternative. -/
theorem Pattern.parse_tally (repeated looked : Bool) {around : Bool} : ∀ {ps : List Pattern} {next : Nat},
    Pattern.Numbered next ps → Pattern.EvenIn around ps → (Pattern.parse T call ps).Yields fun captures =>
      ∃ x ∈ ps, Tally (Token.sites repeated looked x.tokens) (captures.map Capture.slot)
  | [], _, _, _ => Parse.Yields.fail
  | ⟨tokens, _, _⟩ :: rest, next, ⟨here, others⟩, even => by
      obtain ⟨evenHere, evenOthers⟩ := Pattern.evenIn_cons.1 even
      refine .orElse ?_ ?_
      · exact Parse.Yields.imp (Token.parse_tally repeated looked here evenHere) fun _ tally =>
          ⟨_, List.mem_cons_self, tally⟩
      · refine Parse.Yields.imp (Pattern.parse_tally repeated looked others evenOthers) ?_
        rintro _ ⟨x, member, tally⟩
        exact ⟨x, List.mem_cons_of_mem _ member, tally⟩

end

end

end PegFlow
