/-
# PegFlow.Proofs.Grammar.Sites -- where captures stand

The captures of a rule stand at sites, each under what repeats or only looks ahead around it
(`Pattern.sites`), and following one alternative of every choice meets some of them
(`Token.Meets`). A choice is even when its alternatives have captures of the same arities as its
first one (`Choice.Even`). Where all choices are even and slots are numbered in order
(`Pattern.Numbered`), every way through meets the same slots (`Token.Meets.eq_range`), a site is
repeated as the arities say at its slot (`Pattern.sites_fit`), and `Matcher.slots`, which looks at
first alternatives only, lists the slots of all sites inside (`Matcher.mem_slots_iff`).
-/
import PegFlow.Grammar

namespace PegFlow

set_option autoImplicit false

/-! ## Arities and choices -/

mutual

/-- Whether each capture inside is repeated, along first alternatives and outermost first. -/
def Matcher.arities (repeated : Bool) : Matcher → List Bool
  | .capture patterns _ => repeated :: Pattern.arities repeated patterns
  | .group patterns => Pattern.arities repeated patterns
  | _ => []
termination_by structural x => x

/-- Whether each capture inside tokens is repeated. -/
def Token.arities (repeated : Bool) : List Token → List Bool
  | [] => []
  | ⟨matcher, _, again, _, _, _, _⟩ :: rest =>
    matcher.arities (repeated || again) ++ Token.arities repeated rest
termination_by structural x => x

/-- Whether each capture inside the first of the patterns is repeated. -/
def Pattern.arities (repeated : Bool) : List Pattern → List Bool
  | [] => []
  | ⟨tokens, _, _⟩ :: _ => Token.arities repeated tokens
termination_by structural x => x

end

/-- Patterns to choose from, and whether something around them repeats. -/
structure Choice where
  repeated : Bool
  patterns : List Pattern

/-- Every alternative has captures of the same arities as the first. -/
def Choice.Even (c : Choice) : Prop :=
  ∀ x ∈ c.patterns, Token.arities c.repeated x.tokens = Pattern.arities c.repeated c.patterns

instance (c : Choice) : Decidable c.Even :=
  inferInstanceAs (Decidable (∀ x ∈ c.patterns, _ = _))

mutual

/-- The choices of a matcher, at any depth. -/
def Matcher.choices (repeated : Bool) : Matcher → List Choice
  | .capture patterns _ => ⟨repeated, patterns⟩ :: Pattern.choicesIn repeated patterns
  | .group patterns => ⟨repeated, patterns⟩ :: Pattern.choicesIn repeated patterns
  | _ => []
termination_by structural x => x

/-- The choices in tokens, at any depth. -/
def Token.choices (repeated : Bool) : List Token → List Choice
  | [] => []
  | ⟨matcher, _, again, _, _, _, _⟩ :: rest =>
    matcher.choices (repeated || again) ++ Token.choices repeated rest
termination_by structural x => x

/-- The choices inside patterns, at any depth. -/
def Pattern.choicesIn (repeated : Bool) : List Pattern → List Choice
  | [] => []
  | ⟨tokens, _, _⟩ :: rest => Token.choices repeated tokens ++ Pattern.choicesIn repeated rest
termination_by structural x => x

end

/-- The choices of a rule: between its patterns, and those inside them. -/
def Rule.choices (r : Rule) : List Choice := ⟨false, r.patterns⟩ :: Pattern.choicesIn false r.patterns

/-- Every choice of the matcher is even. -/
def Matcher.Even (repeated : Bool) (x : Matcher) : Prop := ∀ c ∈ x.choices repeated, c.Even

/-- Every choice in the tokens is even. -/
def Token.Even (repeated : Bool) (ts : List Token) : Prop := ∀ c ∈ Token.choices repeated ts, c.Even

/-- Every choice inside the patterns is even. -/
def Pattern.EvenIn (repeated : Bool) (ps : List Pattern) : Prop :=
  ∀ c ∈ Pattern.choicesIn repeated ps, c.Even

theorem Matcher.even_capture {repeated : Bool} {ps : List Pattern} {slot : Nat} :
    (Matcher.capture ps slot).Even repeated ↔ (⟨repeated, ps⟩ : Choice).Even ∧ Pattern.EvenIn repeated ps :=
  List.forall_mem_cons

theorem Matcher.even_group {repeated : Bool} {ps : List Pattern} :
    (Matcher.group ps).Even repeated ↔ (⟨repeated, ps⟩ : Choice).Even ∧ Pattern.EvenIn repeated ps :=
  List.forall_mem_cons

theorem Token.even_cons {repeated required again ahead notAhead : Bool} {matcher : Matcher} {id : Nat}
    {pos : Option SourcePosition} {rest : List Token} :
    Token.Even repeated (⟨matcher, required, again, ahead, notAhead, id, pos⟩ :: rest) ↔
      matcher.Even (repeated || again) ∧ Token.Even repeated rest :=
  List.forall_mem_append

theorem Pattern.evenIn_cons {repeated canFail : Bool} {tokens : List Token} {id : Nat}
    {rest : List Pattern} : Pattern.EvenIn repeated (⟨tokens, canFail, id⟩ :: rest) ↔
      Token.Even repeated tokens ∧ Pattern.EvenIn repeated rest :=
  List.forall_mem_append

mutual

theorem Matcher.length_arities (repeated : Bool) : ∀ x : Matcher,
    (x.arities repeated).length = x.slots.length
  | .capture patterns _ => by
      rw [Matcher.arities, Matcher.slots, List.length_cons, List.length_cons, Pattern.length_arities _ patterns]
  | .group patterns => by
      rw [Matcher.arities, Matcher.slots, Pattern.length_arities _ patterns]
  | .ref _ _ => rfl
  | .literal _ _ => rfl
  | .charClass _ _ => rfl
  | .any _ => rfl

theorem Token.length_arities (repeated : Bool) : ∀ ts : List Token,
    (Token.arities repeated ts).length = (Matcher.tokenSlots ts).length
  | [] => rfl
  | ⟨matcher, _, _, _, _, _, _⟩ :: rest => by
      rw [Token.arities, Matcher.tokenSlots, List.length_append, List.length_append, matcher.length_arities,
        Token.length_arities repeated rest]

theorem Pattern.length_arities (repeated : Bool) : ∀ ps : List Pattern,
    (Pattern.arities repeated ps).length = (Matcher.firstSlots ps).length
  | [] => rfl
  | ⟨tokens, _, _⟩ :: _ => Token.length_arities repeated tokens

end

/-! ## Slots in order -/

mutual

/-- The captures inside have slots from `next` on, in order, and so they have in each alternative. -/
def Matcher.Numbered (next : Nat) : Matcher → Prop
  | .capture patterns slot => slot = next ∧ Pattern.Numbered (next + 1) patterns
  | .group patterns => Pattern.Numbered next patterns
  | _ => True
termination_by structural x => x

/-- The captures inside the tokens, one after the other, have slots from `next` on. -/
def Token.Numbered (next : Nat) : List Token → Prop
  | [] => True
  | ⟨matcher, _, _, _, _, _, _⟩ :: rest =>
    matcher.Numbered next ∧ Token.Numbered (next + matcher.slots.length) rest
termination_by structural x => x

/-- The captures inside each of the patterns have slots from `next` on. -/
def Pattern.Numbered (next : Nat) : List Pattern → Prop
  | [] => True
  | ⟨tokens, _, _⟩ :: rest => Token.Numbered next tokens ∧ Pattern.Numbered next rest
termination_by structural x => x

end

mutual

theorem Matcher.Numbered.slots_eq : ∀ {x : Matcher} {next : Nat}, x.Numbered next →
    x.slots = List.range' next x.slots.length
  | .capture patterns _, _, ⟨rfl, numbered⟩ => by
      rw [Matcher.slots, List.length_cons, List.range'_succ, ← Pattern.Numbered.slots_eq numbered]
  | .group _, _, numbered => Pattern.Numbered.slots_eq numbered
  | .ref _ _, _, _ => rfl
  | .literal _ _, _, _ => rfl
  | .charClass _ _, _, _ => rfl
  | .any _, _, _ => rfl

theorem Token.Numbered.slots_eq : ∀ {ts : List Token} {next : Nat}, Token.Numbered next ts →
    Matcher.tokenSlots ts = List.range' next (Matcher.tokenSlots ts).length
  | [], _, _ => rfl
  | ⟨matcher, _, _, _, _, _, _⟩ :: rest, next, ⟨here, later⟩ => by
      rw [Matcher.tokenSlots, List.length_append, ← List.range'_append_1, ← here.slots_eq,
        ← Token.Numbered.slots_eq later]

theorem Pattern.Numbered.slots_eq : ∀ {ps : List Pattern} {next : Nat}, Pattern.Numbered next ps →
    Matcher.firstSlots ps = List.range' next (Matcher.firstSlots ps).length
  | [], _, _ => rfl
  | ⟨_, _, _⟩ :: _, _, ⟨first, _⟩ => Token.Numbered.slots_eq first

end

theorem Pattern.Numbered.tokens {next : Nat} : ∀ {ps : List Pattern}, Pattern.Numbered next ps →
    ∀ x ∈ ps, Token.Numbered next x.tokens
  | ⟨_, _, _⟩ :: _, ⟨first, _⟩, _, .head _ => first
  | ⟨_, _, _⟩ :: _, ⟨_, others⟩, x, .tail _ there => Pattern.Numbered.tokens others x there

theorem Pattern.EvenIn.tokens {repeated : Bool} : ∀ {ps : List Pattern}, Pattern.EvenIn repeated ps →
    ∀ x ∈ ps, Token.Even repeated x.tokens
  | ⟨_, _, _⟩ :: _, even, _, .head _ => (Pattern.evenIn_cons.1 even).1
  | ⟨_, _, _⟩ :: _, even, x, .tail _ there => Pattern.EvenIn.tokens (Pattern.evenIn_cons.1 even).2 x there

/-! ## Ways through -/

/-- The slot of a capture itself. -/
def Matcher.own : Matcher → List Nat
  | .capture _ slot => [slot]
  | _ => []

/-- Following one alternative of every choice, these are the slots of the captures that are met,
outermost first; a choice without alternatives holds no capture. -/
inductive Token.Meets : List Token → List Nat → Prop
  | nil : Meets [] []
  | choose {t : Token} {rest : List Token} {x : Pattern} {inner later : List Nat} :
    x ∈ t.matcher.patterns → Meets x.tokens inner → Meets rest later →
      Meets (t :: rest) (t.matcher.own ++ inner ++ later)
  | skip {t : Token} {rest : List Token} {later : List Nat} :
    t.matcher.patterns = [] → Meets rest later → Meets (t :: rest) (t.matcher.own ++ later)

/-- Through even choices with slots in order, every way meets the same slots. -/
theorem Token.Meets.eq_slots {ts : List Token} {slots : List Nat} (meets : Token.Meets ts slots) :
    ∀ {next : Nat} {repeated : Bool}, Token.Numbered next ts → Token.Even repeated ts →
      slots = Matcher.tokenSlots ts := by
  induction meets with
  | nil => exact fun _ _ => rfl
  | @choose t rest x inner later member _ _ ihInner ihLater =>
      intro next repeated numbered even
      obtain ⟨matcher, required, again, ahead, notAhead, id, pos⟩ := t
      obtain ⟨here, after⟩ := numbered
      obtain ⟨evenHere, evenLater⟩ := Token.even_cons.1 even
      rw [Matcher.tokenSlots, ihLater after evenLater]
      have aligned {start : Nat} {ps : List Pattern} (chosen : x ∈ ps) (numbered : Pattern.Numbered start ps)
          (choice : (⟨repeated || again, ps⟩ : Choice).Even) (evenIn : Pattern.EvenIn (repeated || again) ps) :
          inner = Matcher.firstSlots ps := by
        have own := numbered.tokens x chosen
        rw [ihInner own (evenIn.tokens x chosen), own.slots_eq, numbered.slots_eq,
          ← Token.length_arities (repeated || again), ← Pattern.length_arities (repeated || again),
          choice x chosen]
      cases matcher with
      | capture ps slot =>
          obtain ⟨choice, evenIn⟩ := Matcher.even_capture.1 evenHere
          rw [aligned member here.2 choice evenIn]
          rfl
      | group ps =>
          obtain ⟨choice, evenIn⟩ := Matcher.even_group.1 evenHere
          rw [aligned member here choice evenIn]
          rfl
      | ref | literal | charClass | any => exact absurd member List.not_mem_nil
  | @skip t rest later none _ ihLater =>
      intro next repeated numbered even
      obtain ⟨matcher, required, again, ahead, notAhead, id, pos⟩ := t
      rw [Matcher.tokenSlots, ihLater numbered.2 (Token.even_cons.1 even).2]
      cases matcher with
      | capture ps slot | group ps =>
          have none : ps = [] := none
          rw [none]
          rfl
      | ref | literal | charClass | any => rfl

/-! ## Sites -/

/-- Where a capture stands: its slot, whether it or something around it repeats, and whether
something around it only looks ahead. -/
structure Site where
  slot : Nat
  repeated : Bool
  looked : Bool

mutual

/-- The sites of the captures inside, in all alternatives. -/
def Matcher.sites (repeated looked : Bool) : Matcher → List Site
  | .capture patterns slot => ⟨slot, repeated, looked⟩ :: Pattern.sites repeated looked patterns
  | .group patterns => Pattern.sites repeated looked patterns
  | _ => []
termination_by structural x => x

/-- The sites of the captures inside tokens. -/
def Token.sites (repeated looked : Bool) : List Token → List Site
  | [] => []
  | ⟨matcher, _, again, ahead, notAhead, _, _⟩ :: rest =>
    matcher.sites (repeated || again) (looked || (ahead || notAhead)) ++ Token.sites repeated looked rest
termination_by structural x => x

/-- The sites of the captures inside patterns. -/
def Pattern.sites (repeated looked : Bool) : List Pattern → List Site
  | [] => []
  | ⟨tokens, _, _⟩ :: rest => Token.sites repeated looked tokens ++ Pattern.sites repeated looked rest
termination_by structural x => x

end

/-- The sites of the captures of a rule. -/
def Rule.sites (r : Rule) : List Site := Pattern.sites false false r.patterns

/-- The site is repeated as the arities of the slots from `next` on say. -/
def Site.Fits (next : Nat) (arities : List Bool) (site : Site) : Prop :=
  next ≤ site.slot ∧ arities[site.slot - next]? = some site.repeated

namespace Site.Fits

variable {next : Nat} {site : Site} {arities : List Bool}

theorem append_right (fits : site.Fits next arities) (more : List Bool) : site.Fits next (arities ++ more) :=
  ⟨fits.1, by rw [List.getElem?_append_left (List.getElem?_eq_some_iff.1 fits.2).1, fits.2]⟩

theorem append_left {before : List Bool} {start : Nat} (length : start = next + before.length)
    (fits : site.Fits start arities) : site.Fits next (before ++ arities) := by
  obtain ⟨le, here⟩ := fits
  have shifted : site.slot - next - before.length = site.slot - start := by omega
  exact ⟨by omega, by rw [List.getElem?_append_right (by omega), shifted, here]⟩

theorem mem_range (fits : site.Fits next arities) : site.slot ∈ List.range' next arities.length := by
  obtain ⟨le, here⟩ := fits
  have lt := (List.getElem?_eq_some_iff.1 here).1
  exact List.mem_range'_1.2 ⟨le, by omega⟩

end Site.Fits

mutual

theorem Matcher.sites_fit (repeated looked : Bool) : ∀ {x : Matcher} {next : Nat}, x.Numbered next →
    x.Even repeated → ∀ site ∈ x.sites repeated looked, site.Fits next (x.arities repeated)
  | .capture patterns slot, _, ⟨rfl, numbered⟩, even, site, member => by
      obtain ⟨choice, evenIn⟩ := Matcher.even_capture.1 even
      obtain rfl | inner := List.mem_cons.1 member
      · exact ⟨Nat.le_refl slot, by rw [Nat.sub_self]; rfl⟩
      · have fits := Pattern.sites_fit repeated looked numbered evenIn choice site inner
        exact fits.append_left (Eq.refl (slot + [repeated].length))
  | .group patterns, _, numbered, even, site, member =>
      have ⟨choice, evenIn⟩ := Matcher.even_group.1 even
      Pattern.sites_fit repeated looked numbered evenIn choice site member

theorem Token.sites_fit (repeated looked : Bool) : ∀ {ts : List Token} {next : Nat},
    Token.Numbered next ts → Token.Even repeated ts → ∀ site ∈ Token.sites repeated looked ts,
      site.Fits next (Token.arities repeated ts)
  | ⟨matcher, _, again, ahead, notAhead, _, _⟩ :: rest, next, ⟨here, later⟩, even, site, member => by
      obtain ⟨evenHere, evenLater⟩ := Token.even_cons.1 even
      obtain first | after := List.mem_append.1 member
      · exact (Matcher.sites_fit (repeated || again) _ here evenHere site first).append_right _
      · exact (Token.sites_fit repeated looked later evenLater site after).append_left
          (by rw [Matcher.length_arities])

theorem Pattern.sites_fit (repeated looked : Bool) {arities : List Bool} : ∀ {ps : List Pattern} {next : Nat},
    Pattern.Numbered next ps → Pattern.EvenIn repeated ps →
      (∀ x ∈ ps, Token.arities repeated x.tokens = arities) →
      ∀ site ∈ Pattern.sites repeated looked ps, site.Fits next arities
  | ⟨tokens, _, _⟩ :: rest, next, ⟨here, later⟩, even, same, site, member => by
      obtain ⟨evenHere, evenLater⟩ := Pattern.evenIn_cons.1 even
      obtain first | after := List.mem_append.1 member
      · rw [← same _ List.mem_cons_self]
        exact Token.sites_fit repeated looked here evenHere site first
      · exact Pattern.sites_fit repeated looked later evenLater (fun x hx => same x (List.mem_cons_of_mem _ hx))
          site after

end

mutual

theorem Matcher.exists_site (repeated looked : Bool) : ∀ {x : Matcher} {slot : Nat}, slot ∈ x.slots →
    ∃ site ∈ x.sites repeated looked, site.slot = slot
  | .capture patterns own, slot, member => by
      obtain rfl | inner := List.mem_cons.1 member
      · exact ⟨_, List.mem_cons_self, rfl⟩
      · obtain ⟨site, there, eq⟩ := Pattern.exists_site repeated looked inner
        exact ⟨site, List.mem_cons_of_mem _ there, eq⟩
  | .group _, _, member => Pattern.exists_site repeated looked member

theorem Token.exists_site (repeated looked : Bool) : ∀ {ts : List Token} {slot : Nat},
    slot ∈ Matcher.tokenSlots ts → ∃ site ∈ Token.sites repeated looked ts, site.slot = slot
  | ⟨matcher, _, again, ahead, notAhead, _, _⟩ :: rest, slot, member => by
      obtain first | after := List.mem_append.1 member
      · obtain ⟨site, there, eq⟩ := Matcher.exists_site (repeated || again) (looked || (ahead || notAhead)) first
        exact ⟨site, List.mem_append_left _ there, eq⟩
      · obtain ⟨site, there, eq⟩ := Token.exists_site repeated looked after
        exact ⟨site, List.mem_append_right _ there, eq⟩

theorem Pattern.exists_site (repeated looked : Bool) : ∀ {ps : List Pattern} {slot : Nat},
    slot ∈ Matcher.firstSlots ps → ∃ site ∈ Pattern.sites repeated looked ps, site.slot = slot
  | ⟨_, _, _⟩ :: _, _, member => by
      obtain ⟨site, there, eq⟩ := Token.exists_site repeated looked member
      exact ⟨site, List.mem_append_left _ there, eq⟩

end

/-- The slots of a matcher are those of all sites inside it. -/
theorem Matcher.mem_slots_iff {x : Matcher} {next : Nat} {repeated : Bool} (numbered : x.Numbered next)
    (even : x.Even repeated) (looked : Bool) (slot : Nat) :
    slot ∈ x.slots ↔ ∃ site ∈ x.sites repeated looked, site.slot = slot := by
  constructor
  · exact Matcher.exists_site repeated looked
  · rintro ⟨site, member, rfl⟩
    rw [numbered.slots_eq, ← Matcher.length_arities repeated]
    exact (Matcher.sites_fit repeated looked numbered even site member).mem_range

end PegFlow
