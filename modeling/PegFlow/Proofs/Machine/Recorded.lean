/-
# PegFlow.Proofs.Machine.Recorded -- captures are recorded once for each match

In every run of every accepted grammar: where the output of a rule is worked out, the captures since
its call began are in the slots of its layout, those that are not repeated once at most, and
exactly once if nothing of the rule only looks ahead. And whenever a token is repeated, each round
that matches something records one entry in every steady slot of its body, other rounds record
nothing, and so the entries of these slots stay aligned (`Machine.Reachable.captures_once`).
-/
import PegFlow.Proofs.Machine.Rounds
import PegFlow.Proofs.Machine.Tries

namespace PegFlow

set_option autoImplicit false

open Machine

/-! ## Slots in order, part by part -/

/-- Somewhere around the tokens slots are counted from some slot on, and their choices are even. -/
def Token.Ordered (ts : List Token) : Prop := ∃ next repeated, Token.Numbered next ts ∧ Token.Even repeated ts

/-- Somewhere around the patterns slots are counted from some slot on, and the choices inside them are
even. -/
def Pattern.Ordered (ps : List Pattern) : Prop :=
  ∃ next repeated, Pattern.Numbered next ps ∧ Pattern.EvenIn repeated ps

/-- The slots of a part are in order, and its choices are even. -/
def Part.Ordered : Part → Prop
  | .rules _ rs => ∀ r ∈ rs, Pattern.Ordered r.patterns
  | .choice patterns => Pattern.Ordered patterns
  | .pattern tokens => Token.Ordered tokens
  | .sequence tokens => Token.Ordered tokens
  | .token t => t.matcher.Ordered
  | .quantified t => t.matcher.Ordered
  | .matcher m => m.Ordered

theorem Compiled.ordered {a : AnnotatedGrammar} {part : Part} {base pass fail : Nat}
    (rules : ∀ s ∈ a.grammar.rulesets, ∀ r ∈ s.rules, Pattern.Ordered r.patterns)
    (compiled : Compiled a part base pass fail) : part.Ordered := by
  induction compiled with
  | whole => exact ⟨0, false, trivial, List.forall_mem_nil _⟩
  | ruleset split => exact rules _ (by simp [split])
  | rule _ ih => exact ih _ List.mem_cons_self
  | laterRules _ ih => exact fun r member => ih r (List.mem_cons_of_mem _ member)
  | @pattern _ _ _ x rest _ ih =>
      obtain ⟨next, repeated, numbered, even⟩ := ih
      exact ⟨next, repeated, numbered.tokens x List.mem_cons_self, even.tokens x List.mem_cons_self⟩
  | @laterPatterns _ _ _ x _ _ ih =>
      obtain ⟨_, _, _⟩ := x
      obtain ⟨next, repeated, numbered, even⟩ := ih
      exact ⟨next, repeated, numbered.2, (Pattern.evenIn_cons.1 even).2⟩
  | @token _ _ _ t _ _ ih =>
      obtain ⟨_, _, _, _, _, _, _⟩ := t
      obtain ⟨next, repeated, numbered, even⟩ := ih
      exact ⟨next, _, numbered.1, (Token.even_cons.1 even).1⟩
  | @laterTokens _ _ _ t _ _ ih =>
      obtain ⟨_, _, _, _, _, _, _⟩ := t
      obtain ⟨next, repeated, numbered, even⟩ := ih
      exact ⟨_, repeated, numbered.2, (Token.even_cons.1 even).2⟩
  | lone _ _ ih | several _ _ ih => exact ih
  | ahead _ _ ih | notAhead _ _ _ ih | here _ _ _ ih => exact ih
  | repeated _ _ ih | once _ _ _ ih | optional _ _ _ _ ih | optionalSlots _ _ _ _ ih => exact ih
  | group _ ih =>
      obtain ⟨next, repeated, numbered, even⟩ := ih
      exact ⟨next, repeated, numbered, (Matcher.even_group.1 even).2⟩
  | capture _ ih =>
      obtain ⟨next, repeated, numbered, even⟩ := ih
      exact ⟨next + 1, repeated, numbered.2, (Matcher.even_capture.1 even).2⟩

/-! ## Captures of a rule -/

/-- What one match of a rule records: slots of its layout, those that are not repeated once at most,
and exactly once if no capture of the rule is only looked at. -/
structure Rule.RecordsOnce (r : Rule) (captures : List Capture) : Prop where
  inLayout : ∀ c ∈ captures, 1 ≤ c.slot ∧ c.slot ≤ r.captures.length
  atMostOnce : ∀ k, r.captures[k]? = some false → (Capture.entries (k + 1) captures).length ≤ 1
  once : (∀ site ∈ r.sites, site.looked = false) → ∀ k, r.captures[k]? = some false →
    (Capture.entries (k + 1) captures).length = 1

theorem Rule.Numbered.recordsOnce {r : Rule} (numbered : r.Numbered) (even : ∀ c ∈ r.choices, c.Even)
    {captures : List Capture} (matched : Pattern.Matched r.patterns captures) : r.RecordsOnce captures := by
  obtain ⟨choice, evenIn⟩ := Rule.even_iff.1 even
  obtain ⟨T, call, calls, pos, stop, again, outcome⟩ := matched
  have tally : Tally r.sites (captures.map Capture.slot) := .choice choice numbered.2 evenIn false false
    (Pattern.parse_tally false false numbered.2 evenIn calls pos stop captures again outcome)
  have single {k : Nat} (isSingle : r.captures[k]? = some false) :
      ∀ site ∈ r.sites, site.slot = k + 1 → site.repeated = false :=
    ((numbered.consistent even).repeats k (List.getElem?_eq_some_iff.1 isSingle).1).2.1 isSingle
  refine ⟨fun c member => ?_, fun k isSingle => ?_, fun seen k isSingle => ?_⟩
  · obtain ⟨site, inside, same⟩ := tally.inside c.slot (List.mem_map_of_mem member)
    have range := List.mem_range'_1.1 (numbered.fits even site inside).mem_range
    omega
  · rw [Capture.length_entries]
    exact tally.single (k + 1) (single isSingle)
  · rw [Capture.length_entries]
    exact tally.once (k + 1) ⟨numbered.exists_site (List.getElem?_eq_some_iff.1 isSingle).1,
      fun site member same => ⟨single isSingle site member same, seen site member⟩⟩

/-! ## Captures of rounds -/

/-- The value that was recorded in a slot first. -/
def Capture.entry (slot : Nat) (captures : List Capture) : Value := (entries slot captures).headD .null

/-- Each of the rounds recorded the slot once, and their entries are all entries of the slot, in the
order of the rounds. -/
structure Capture.OncePerRound (slot : Nat) (rounds : List (List Capture)) : Prop where
  once : ∀ round ∈ rounds, (entries slot round).length = 1
  aligned : entries slot rounds.flatten = rounds.map (entry slot)

theorem Capture.OncePerRound.of_once {slot : Nat} {rounds : List (List Capture)}
    (once : ∀ round ∈ rounds, (entries slot round).length = 1) : OncePerRound slot rounds := by
  refine ⟨once, ?_⟩
  induction rounds with
  | nil => rfl
  | cons round rest ih =>
      obtain ⟨first, others⟩ := List.forall_mem_cons.1 once
      obtain ⟨v, only⟩ := List.length_eq_one_iff.1 first
      rw [List.flatten_cons, entries_append, ih others, List.map_cons, entry, only]
      rfl

theorem Capture.OncePerRound.of_steady {slot : Nat} {sites : List Site} {rounds : List (List Capture)}
    (steady : Steady sites slot) (tallies : ∀ round ∈ rounds, Tally sites (round.map Capture.slot)) :
    OncePerRound slot rounds :=
  .of_once fun round member => by
    rw [length_entries]
    exact (tallies round member).once slot steady

/-! ## Every run -/

/-- Of every accepted grammar and every state that a run comes by, whatever text has come. Where the
output of a rule is worked out, the captures since the call began are in the slots of the layout,
those of slots that are not repeated once at most, and exactly once if no capture of the rule is
only looked at. Where a repeated token begins, it runs round by round until it is left. All along the
captures are those from before it and those of the rounds that matched something: every such round
records one entry in each steady slot of the body, and other rounds record nothing. -/
theorem Machine.Reachable.captures_once {g : Grammar} {callbacks : List String} {a : AnnotatedGrammar}
    (accepted : g.annotate? callbacks = .ok a) (library : Library) {b : Buffer} {s₀ s : State}
    {first n op : Nat} (reachable : Reachable (Program.ofGrammar a library) b s₀)
    (pending : s₀.pending = some first)
    (steps : Steps (Program.ofGrammar a library) b n first s₀.resumed op s) :
    (∀ rule next, (Program.ofGrammar a library).ops[op]? = some (.output rule next) →
      ∃ f rest r, s.frames = f :: rest ∧ (a.grammar.rulesets.flatMap Ruleset.rules)[rule]? = some r ∧
        f.captureBase ≤ s.captures.size ∧ r.RecordsOnce (s.capturesSince f.captureBase)) ∧
    ∀ t base pass fail, Compiled a (.quantified t) base pass fail → t.repeated = true →
      op = ((Part.quantified t).fragment base pass fail).entry →
      (∀ rounds b' o u, t.Rounds (Program.ofGrammar a library) base b s rounds b' o u →
        u.captures.toList = s.captures.toList ++ rounds.flatten ∧
        ∀ slot, Steady (t.matcher.sites false false) slot → Capture.OncePerRound slot rounds) ∧
      ∀ b' o u, Leaves (Program.ofGrammar a library) (Among base (Part.quantified t).fragment.size)
          s.frames.length b op s b' o u →
        ∃ rounds, t.Rounds (Program.ofGrammar a library) base b s rounds b' o u := by
  have linked := Grammar.annotate?_linked accepted
  have numbered := Grammar.annotate?_numbered accepted
  have even : ∀ s ∈ a.grammar.rulesets, ∀ r ∈ s.rules, ∀ c ∈ r.choices, c.Even := by
    intro s hs r hr c hc
    by_contra uneven
    exact Grammar.annotate?_even accepted ⟨s, hs, r, hr, c, hc, uneven⟩
  obtain ⟨P, rests⟩ := reachable.rests linked
  have follows := (rests.goesOn first pending).steps linked steps
  have running := steps.running rfl rfl
  refine ⟨fun rule next held => ?_, ?_⟩
  · have path := follows.path "" (fun _ => rfl) follows.fits_whole
    obtain ⟨f, rest, r, before, captures, frames, found, base, all, matched⟩ :=
      path.captures_at_output linked follows.fits_whole held
    obtain ⟨rs, hs, hr⟩ := List.mem_flatMap.1 (List.mem_of_getElem? found)
    refine ⟨f, rest, r, frames, found, ?_, ?_⟩
    · rw [← base, ← Array.length_toList, all, List.length_append]
      exact Nat.le_add_right _ _
    · rw [State.capturesSince_of_append all base]
      exact (numbered rs hs r hr).recordsOnce (even rs hs r hr) matched
  · rintro t base pass fail compiled again rfl
    have ordered : t.matcher.Ordered := compiled.ordered fun s hs r hr =>
      ⟨1, false, (numbered s hs r hr).2, (Rule.even_iff.1 (even s hs r hr)).2⟩
    rw [Token.quantified_entry again] at follows ⊢
    refine ⟨fun rounds b' o u run => ?_, fun b' o u leaves => ?_⟩
    · obtain ⟨captures, tallies, -⟩ := run.recorded linked compiled again ordered follows running.1 running.2
      exact ⟨captures, fun slot steady => .of_steady steady tallies⟩
    · exact leaves.rounds linked compiled again ordered follows running.1 running.2

/-! ## Pairs of letters -/

/-- Runs what is `inside`, and the calls made from there, for at most so many ops, and says where it is
left. The text that has come must be enough. -/
def Machine.leave? (p : Program) (inside : Nat → Prop) [DecidablePred inside] (depth : Nat) (b : Buffer) :
    Nat → Nat → State → Option (Nat × State)
  | 0, _, _ => none
  | fuel + 1, op, s =>
      if depth < s.frames.length ∨ inside op then
        match step p b op s with
        | .next op' s' => leave? p inside depth b fuel op' s'
        | .halt _ | .fault _ _ => none
      else some (op, s)

theorem Machine.leave?_eq_some {p : Program} {inside : Nat → Prop} [DecidablePred inside] {depth fuel op o : Nat}
    {b : Buffer} {s t : State} (left : leave? p inside depth b fuel op s = some (o, t)) :
    Leaves p inside depth b op s b o t ∧ ∃ n, Steps p b n op s o t := by
  induction fuel generalizing op s with
  | zero => cases left
  | succ fuel ih =>
      rw [leave?] at left
      split at left
      · rename_i inner
        split at left
        · rename_i op' s' taken
          obtain ⟨leaves, n, steps⟩ := ih left
          exact ⟨.on inner taken leaves, n + 1, .more taken steps⟩
        · cases left
        · cases left
      · rename_i outside
        cases left
        rw [not_or] at outside
        exact ⟨.out (Nat.le_of_not_lt outside.1) outside.2, 0, .stay _ _⟩

/-- An `x` and pairs of an `a` and a `b` that may be left out, with all letters recorded. -/
def Grammar.pairs : Grammar :=
  Grammar.empty.addRuleset "return" [.ofPatterns [.ofTokens [
    .capture [.ofTokens [.literal "x"]],
    (Token.group [.ofTokens [
      .capture [.ofTokens [.literal "a"]],
      (Token.capture [.ofTokens [.literal "b"]]).opt]]).star]] none]

/-- The pairs, with their annotations. -/
def Token.pairs : Token where
  matcher := .group [{ tokens := [
    { matcher := .capture [{ tokens := [{ matcher := .literal "a" (some 1), id := 11 }], id := 10 }] 2, id := 9 },
    { matcher := .capture [{ tokens := [{ matcher := .literal "b" (some 2), id := 14 }], id := 13 }] 3,
      required := false, id := 12 }], id := 8 }]
  required := false
  repeated := true
  id := 7

/-- The only rule, with its annotations. -/
def Rule.pairs : Rule where
  patterns := [{ tokens := [
    { matcher := .capture [{ tokens := [{ matcher := .literal "x" (some 0), id := 6 }], id := 5 }] 1, id := 4 },
    Token.pairs], id := 3 }]
  captures := [false, true, true]
  id := 2

/-- The only ruleset, with its annotations. -/
def Ruleset.pairs : Ruleset := { name := "return", rules := [.pairs], id := 1 }

/-- An `x` and pairs of letters, with annotations. -/
def Grammar.pairsAnnotated : AnnotatedGrammar where
  grammar := { rulesets := [.pairs], lookup := [("return", 0)], maxId := 14 }
  terminals := [.literal "x", .literal "a", .literal "b"]
  entry := 0
  warnings := []

theorem Grammar.pairs_accepted : Grammar.pairs.annotate? [] = .ok Grammar.pairsAnnotated :=
  rfl

theorem Grammar.pairs_compiled : Compiled Grammar.pairsAnnotated (.quantified .pairs) 5 4 3 :=
  .here (.token (.laterTokens (.several (.pattern (.rule
    (@Compiled.ruleset Grammar.pairsAnnotated [] [] Ruleset.pairs rfl))) (by decide)))) rfl rfl

open Grammar in
/-- The `x` is recorded once and both letters of every pair are, the second one as null where it is left
out. -/
theorem Machine.Reachable.captures_once_of_pairs : ∃ b s t u m n, (Buffer.empty 0).append "xaab" = .ok b ∧
    Steps (Program.ofGrammar pairsAnnotated {}) b.close m 27 (State.start (Program.ofGrammar pairsAnnotated {})).resumed
      19 s ∧
    Leaves (Program.ofGrammar pairsAnnotated {}) (Among 5 15) 1 b.close 19 s b.close 4 t ∧
    (∃ rounds, t.captures.toList = s.captures.toList ++ rounds.flatten ∧ Capture.OncePerRound 2 rounds ∧
      Capture.OncePerRound 3 rounds) ∧
    Steps (Program.ofGrammar pairsAnnotated {}) b.close n 27 (State.start (Program.ofGrammar pairsAnnotated {})).resumed
      2 u ∧
    (u.capturesSince 0).map Capture.slot = [1, 2, 3, 2, 3] ∧ Rule.pairs.RecordsOnce (u.capturesSince 0) := by
  let p := Program.ofGrammar pairsAnnotated {}
  let b : Buffer := { minRetained := 0, chunks := [⟨0, "xaab"⟩], length := 4 }
  have appended : (Buffer.empty 0).append "xaab" = .ok b := by decide
  have reachable : Reachable p b.close (State.start p) := .close (.append (.start 0) appended (by decide))
  have run : ((leave? p (· ≠ 19) 1 b.close 9 27 (State.start p).resumed).bind fun l =>
      (leave? p (Among 5 15) 1 b.close 40 l.1 l.2).map fun m => (l.1, l.2.frames.length, m.1)) =
      some (19, 1, 4) := by decide +kernel
  obtain ⟨⟨op, s⟩, first, run⟩ := Option.bind_eq_some_iff.1 run
  obtain ⟨⟨o, t⟩, second, same⟩ := Option.map_eq_some_iff.1 run
  cases (congrArg Prod.fst same :)
  cases (congrArg (fun x => x.2.2) same :)
  have depth : s.frames.length = 1 := congrArg (fun x => x.2.1) same
  obtain ⟨-, m, begins⟩ := leave?_eq_some first
  obtain ⟨leaves, -⟩ := leave?_eq_some second
  obtain ⟨recorded, splits⟩ :=
    (captures_once pairs_accepted {} reachable rfl begins).2 _ _ _ _ pairs_compiled rfl rfl
  rw [depth] at splits
  obtain ⟨rounds, run⟩ := splits _ _ _ leaves
  obtain ⟨all, once⟩ := recorded rounds _ _ _ run
  have run : (leave? p (· ≠ 2) 1 b.close 60 27 (State.start p).resumed).map (fun l =>
      (l.1, l.2.frames.map Frame.captureBase, l.2.captures.toList.map Capture.slot)) =
      some (2, [0], [1, 2, 3, 2, 3]) := by decide +kernel
  obtain ⟨⟨op, u⟩, third, same⟩ := Option.map_eq_some_iff.1 run
  cases (congrArg Prod.fst same :)
  obtain ⟨-, n, steps⟩ := leave?_eq_some third
  obtain ⟨f, rest, r, frames, rule, -, records⟩ := (captures_once pairs_accepted {} reachable rfl steps).1 0 0 rfl
  cases (show some Rule.pairs = some r from rule)
  have base : u.frames.map Frame.captureBase = [0] := congrArg (fun x => x.2.1) same
  have slots : u.captures.toList.map Capture.slot = [1, 2, 3, 2, 3] := congrArg (fun x => x.2.2) same
  rw [frames] at base
  rw [(List.cons.inj base).1] at records
  exact ⟨b, s, t, u, m, n, appended, begins, leaves, ⟨rounds, all, once 2 (by decide), once 3 (by decide)⟩, steps,
    slots, records⟩

end PegFlow
