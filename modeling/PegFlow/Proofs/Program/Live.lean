/-
# PegFlow.Proofs.Program.Live -- ops that may run

What comes after a sure pattern is never tried, nor is an op that gives up what always matches.
`Matcher.live`, `Token.live` and `Pattern.live` mark for each op of a fragment whether it may run
for all that is known of sure patterns. The marks are closed (`Fragment.Flows`): an op that may run
turns to ops that may run, or leaves the fragment, through its exit for failure only when the
fragment is not sure. `Program.live_closed` says so of a whole program.

What a part marks as never run is marked so in the whole program (`Compiled.spots`). So nothing
may run of what follows a sure pattern (`Compiled.not_live_options`, `Compiled.not_live_rules`).
-/
import PegFlow.Proofs.Grammar.Sure
import PegFlow.Proofs.Machine.Copy
import PegFlow.Proofs.Program.Part

namespace PegFlow

set_option autoImplicit false
set_option linter.unusedSectionVars false

/-- The places that an op can turn to. An empty text is always found, and a loop that needs no
rounds passes. -/
def Op.turns (terminals : Array Terminal) : Op → List Nat
  | .terminal id pass fail => if terminals[id]? = some (.literal "") then [pass] else [pass, fail]
  | .loopNext body least pass fail => body :: pass :: if least = 0 then [] else [fail]
  | .loopExit least pass fail => pass :: if least = 0 then [] else [fail]
  | o => o.targets

/-! ## Marks -/

namespace Live

/-- Marks of a body between two ops before it and one behind it. -/
def around (one other : Bool) (body : List Bool) : List Bool := one :: other :: body ++ [true]

/-- No op may run. -/
def never (marks : List Bool) : List Bool := marks.map fun _ => false

/-- Marks of what follows something, which do not run when that is `sure`. -/
def behind (sure : Bool) (marks : List Bool) : List Bool := if sure then never marks else marks

@[simp] theorem length_behind (sure : Bool) (marks : List Bool) : (behind sure marks).length = marks.length := by
  cases sure <;> simp [behind, never]

/-- Marks of a token that is repeated or not and required or not. -/
def counted (required repeated : Bool) (slots : List Nat) (body : List Bool) : List Bool :=
  if repeated then around true true body
  else if required then body
  else if slots.isEmpty then body
  else true :: body

/-- Marks of a token with its modifiers, `sure` telling whether its matcher is. -/
def modified (required repeated ahead notAhead sure : Bool) (slots : List Nat) (body : List Bool) :
    List Bool :=
  if ahead then around true (!(!required || !repeated && sure)) (counted required repeated slots body)
  else if notAhead then around true true (counted required repeated slots body)
  else counted required repeated slots body

end Live

mutual

/-- For each op of a matcher whether it may run. -/
def Matcher.live : Matcher → List Bool
  | .literal _ terminal => terminal.elim [] fun _ => [true]
  | .charClass _ terminal => terminal.elim [] fun _ => [true]
  | .any terminal => terminal.elim [] fun _ => [true]
  | .ref _ target => target.elim [] fun _ => [true]
  | .group patterns => Pattern.live patterns
  | .capture patterns _ => Live.around true (!Pattern.someSure patterns) (Pattern.live patterns)

/-- For each op of a sequence whether it may run. -/
def Token.live : List Token → List Bool
  | [] => []
  | ⟨matcher, required, repeated, ahead, notAhead, _, _⟩ :: rest =>
    Token.live rest ++ Live.modified required repeated ahead notAhead matcher.sure matcher.slots matcher.live

/-- For each op of a choice whether it may run. -/
def Pattern.live : List Pattern → List Bool
  | [] => []
  | ⟨tokens, _, _⟩ :: rest =>
    Live.behind (Token.allSure tokens) (Pattern.live rest) ++
      if tokens.length < 2 then Token.live tokens
      else Live.around (!Token.allSure tokens) true (Token.live tokens)

end

/-- For each op of rules whether it may run. -/
def Rule.live : List Rule → List Bool
  | [] => []
  | r :: rest => Live.behind (Pattern.someSure r.patterns) (Rule.live rest) ++ true :: Pattern.live r.patterns

/-! ## Marks are closed -/

/-- The places from `base` on with such a mark are in `L`. -/
def Spots (mark : Bool) (L : Nat → Prop) (base : Nat) (marks : List Bool) : Prop :=
  ∀ i, marks[i]? = some mark → L (base + i)

namespace Spots

variable {mark first : Bool} {L : Nat → Prop} {base : Nat} {marks more : List Bool}

theorem head (spots : Spots mark L base (first :: marks)) (same : first = mark) : L base :=
  spots 0 (by rw [same]; rfl)

theorem tail (spots : Spots mark L base (first :: marks)) : Spots mark L (base + 1) marks := by
  intro i found
  rw [Nat.add_assoc, Nat.add_comm 1 i]
  exact spots (i + 1) (by simpa using found)

theorem left (spots : Spots mark L base (marks ++ more)) : Spots mark L base marks := by
  intro i found
  exact spots i (by rw [List.getElem?_append_left (List.getElem?_eq_some_iff.1 found).1, found])

theorem right (spots : Spots mark L base (marks ++ more)) : Spots mark L (base + marks.length) more := by
  intro i found
  rw [Nat.add_assoc]
  exact spots (marks.length + i) (by rw [List.getElem?_append_right (by omega)]; simpa using found)

theorem inside {one other : Bool} (spots : Spots mark L base (Live.around one other marks)) :
    Spots mark L (base + 2) marks := spots.left.tail.tail

theorem around {one other : Bool} (spots : Spots true L base (Live.around one other marks)) :
    (one = true → L base) ∧ (other = true → L (base + 1)) ∧ Spots true L (base + 2) marks ∧
      L (base + 2 + marks.length) := by
  have last := spots.right.head rfl
  rw [List.length_cons, List.length_cons, show base + (marks.length + 1 + 1) = base + 2 + marks.length by omega] at last
  exact ⟨spots.left.head, spots.left.tail.head, spots.inside, last⟩

/-- Where nothing may run, all places are in `L`. -/
theorem all (spots : Spots false L base (Live.never marks)) {t : Nat} (among : Among base marks.length t) : L t := by
  obtain ⟨i, rfl⟩ := Nat.exists_eq_add_of_le among.1
  have lt : i < marks.length := by
    have := among.2
    omega
  exact spots i (by simp [Live.never, lt])

theorem behind {sure : Bool} (spots : Spots false L base (Live.behind sure marks)) : Spots false L base marks := by
  cases sure with
  | false => exact spots
  | true =>
      intro i found
      have lt := (List.getElem?_eq_some_iff.1 found).1
      exact spots.all ⟨Nat.le_add_right base i, Nat.add_lt_add_left lt base⟩

end Spots

/-- Ops whose marks are set turn to places in `L`. -/
def Turn (terminals : Array Terminal) (L : Nat → Prop) (ops : List Op) (marks : List Bool) : Prop :=
  ∀ o, (o, true) ∈ ops.zip marks → ∀ t ∈ o.turns terminals, L t

namespace Turn

variable {terminals : Array Terminal} {L : Nat → Prop} {o one other last : Op} {ops ops' : List Op}
  {mark : Bool} {marks marks' : List Bool}

theorem nil : Turn terminals L [] marks := fun _ member => nomatch member

theorem cons (first : mark = true → ∀ t ∈ o.turns terminals, L t) (rest : Turn terminals L ops marks) :
    Turn terminals L (o :: ops) (mark :: marks) := by
  intro o' member
  rw [List.zip_cons_cons, List.mem_cons, Prod.mk.injEq] at member
  rcases member with ⟨rfl, rfl⟩ | later
  · exact first rfl
  · exact rest o' later

theorem append (length : ops.length = marks.length) (one : Turn terminals L ops marks)
    (other : Turn terminals L ops' marks') : Turn terminals L (ops ++ ops') (marks ++ marks') := by
  intro o member
  rw [List.zip_append length, List.mem_append] at member
  exact member.elim (one o) (other o)

theorem never : Turn terminals L ops (Live.never marks) := by
  intro o member
  have set := (List.of_mem_zip member).2
  simp [Live.never] at set

theorem around {a b : Bool} (length : ops.length = marks.length)
    (before : a = true → ∀ t ∈ one.turns terminals, L t) (next : b = true → ∀ t ∈ other.turns terminals, L t)
    (body : Turn terminals L ops marks) (behind : ∀ t ∈ last.turns terminals, L t) :
    Turn terminals L (one :: other :: ops ++ [last]) (Live.around a b marks) :=
  .append (by simp [length]) (.cons before (.cons next body)) (.cons (fun _ => behind) .nil)

end Turn

/-- The marks are those of the fragment placed to go on at `pass`: from where it begins, what may run
turns to what may run or to the exits, and to the one for failure only if the fragment is not sure. -/
def Fragment.Flows (terminals : Array Terminal) (sure : Bool) (marks : List Bool) (pass : Nat) (f : Fragment) :
    Prop :=
  ∀ base fail, (f base pass fail).ops.length = marks.length ∧
    ∀ L : Nat → Prop, L pass → (sure = false → L fail) → Spots true L base marks →
      L (f base pass fail).entry ∧ Turn terminals L (f base pass fail).ops marks

namespace Fragment.Flows

variable {terminals : Array Terminal} {sure sure' : Bool} {marks marks' : List Bool} {next : Nat}
  {f f' : Fragment}

theorem loose (flows : Flows terminals sure marks next f) (le : sure' = true → sure = true) :
    Flows terminals sure' marks next f := by
  intro base fail
  obtain ⟨length, closed⟩ := flows base fail
  refine ⟨length, fun L pass failed lit => closed L pass (fun no => failed ?_) lit⟩
  cases sure' with
  | false => rfl
  | true => cases no.symm.trans (le rfl)

theorem pass : Flows terminals true [] next Fragment.pass :=
  fun _ _ => ⟨rfl, fun _ passed _ _ => ⟨passed, .nil⟩⟩

theorem fail : Flows terminals false [] next Fragment.fail :=
  fun _ _ => ⟨rfl, fun _ _ failed _ => ⟨failed rfl, .nil⟩⟩

theorem terminal {id : Nat} (always : sure = true → terminals[id]? = some (.literal "")) :
    Flows terminals sure [true] next (Fragment.terminal id) := by
  refine fun base fail => ⟨rfl, fun L passed failed lit => ⟨lit.head rfl, .cons (fun _ => ?_) .nil⟩⟩
  rw [Op.turns]
  cases sure with
  | true =>
      rw [if_pos (always rfl)]
      exact List.forall_mem_singleton.2 passed
  | false =>
      have both : ∀ t ∈ [next, fail], L t := by simp [passed, failed]
      split
      · exact List.forall_mem_singleton.2 passed
      · exact both

theorem call (ruleset : Nat) : Flows terminals false [true] next (Fragment.call ruleset) := by
  refine fun base fail => ⟨rfl, fun L passed failed lit => ⟨lit.head rfl, .cons (fun _ => ?_) .nil⟩⟩
  simp [Op.turns, Op.targets, passed, failed]

theorem orElse (one : Flows terminals sure marks next f) (other : Flows terminals sure' marks' next f') :
    Flows terminals (sure || sure') (Live.behind sure marks' ++ marks) next (f.orElse f') := by
  intro base fail
  obtain ⟨length', closed'⟩ := other base fail
  obtain ⟨length, closed⟩ := one (base + (f' base next fail).ops.length) (f' base next fail).entry
  have length'' : (f' base next fail).ops.length = (Live.behind sure marks').length := by
    rw [length', Live.length_behind]
  have sum := congrArg₂ (· + ·) length'' length
  refine ⟨List.length_append.trans (sum.trans List.length_append.symm), fun L passed failed lit => ?_⟩
  have later := lit.right
  rw [← length''] at later
  -- the second part is tried only if the first one is not sure
  have second : sure = false → L (f' base next fail).entry ∧ Turn terminals L (f' base next fail).ops marks' := by
    intro no
    refine closed' L passed (fun no' => failed (by rw [no, no', Bool.or_false])) ?_
    have first := lit.left
    rwa [Live.behind, no] at first
  obtain ⟨entry, turn⟩ := closed L passed (fun no => (second no).1) later
  refine ⟨entry, .append length'' ?_ turn⟩
  cases sure with
  | true => exact .never
  | false => exact (second rfl).2

theorem andThen (one : ∀ next, Flows terminals sure marks next f) (other : Flows terminals sure' marks' next f') :
    Flows terminals (sure && sure') (marks' ++ marks) next (f.andThen f') := by
  intro base fail
  obtain ⟨length', closed'⟩ := other base fail
  obtain ⟨length, closed⟩ := one (f' base next fail).entry (base + (f' base next fail).ops.length) fail
  have sum := congrArg₂ (· + ·) length' length
  refine ⟨List.length_append.trans (sum.trans List.length_append.symm), fun L passed failed lit => ?_⟩
  have later := lit.right
  rw [← length'] at later
  obtain ⟨entry', turn'⟩ := closed' L passed (fun no => failed (by rw [no, Bool.and_false])) lit.left
  obtain ⟨entry, turn⟩ := closed L entry' (fun no => failed (by rw [no, Bool.false_and])) later
  exact ⟨entry, .append length' turn' turn⟩

theorem atomically (body : ∀ next, Flows terminals sure marks next f) :
    Flows terminals sure (Live.around (!sure) true marks) next f.atomically := by
  intro base fail
  obtain ⟨length, closed⟩ := body (base + 1) (base + 2) base
  refine ⟨by simp [Fragment.atomically, Live.around, length], fun L passed failed lit => ?_⟩
  obtain ⟨rollback, commit, inside, enter⟩ := lit.around
  obtain ⟨entry, turn⟩ := closed L (commit rfl) (fun no => rollback (by rw [no]; rfl)) inside
  rw [← length] at enter
  refine ⟨enter, .around length (fun no => ?_) (fun _ => ?_) turn ?_⟩
  · simpa [Op.turns, Op.targets] using failed (by simpa using no)
  · simpa [Op.turns, Op.targets] using passed
  · simpa [Op.turns, Op.targets] using entry

theorem lookahead (body : ∀ next, Flows terminals sure marks next f) :
    Flows terminals sure (Live.around true (!sure) marks) next f.lookahead := by
  intro base fail
  obtain ⟨length, closed⟩ := body base (base + 2) (base + 1)
  refine ⟨by simp [Fragment.lookahead, Live.around, length], fun L passed failed lit => ?_⟩
  obtain ⟨yes, no, inside, enter⟩ := lit.around
  obtain ⟨entry, turn⟩ := closed L (yes rfl) (fun unsure => no (by rw [unsure]; rfl)) inside
  rw [← length] at enter
  refine ⟨enter, .around length (fun _ => ?_) (fun unsure => ?_) turn ?_⟩
  · simpa [Op.turns, Op.targets] using passed
  · simpa [Op.turns, Op.targets] using failed (by simpa using unsure)
  · simpa [Op.turns, Op.targets] using entry

theorem negativeLookahead (body : ∀ next, Flows terminals sure marks next f) :
    Flows terminals false (Live.around true true marks) next f.negativeLookahead := by
  intro base fail
  obtain ⟨length, closed⟩ := body (base + 1) (base + 2) base
  refine ⟨by simp [Fragment.negativeLookahead, Live.around, length], fun L passed failed lit => ?_⟩
  obtain ⟨no, yes, inside, enter⟩ := lit.around
  obtain ⟨entry, turn⟩ := closed L (yes rfl) (fun _ => no rfl) inside
  rw [← length] at enter
  refine ⟨enter, .around length (fun _ => ?_) (fun _ => ?_) turn ?_⟩
  · simpa [Op.turns, Op.targets] using passed
  · simpa [Op.turns, Op.targets] using failed rfl
  · simpa [Op.turns, Op.targets] using entry

theorem optional {slots : List Nat} (body : ∀ next, Flows terminals sure marks next f) :
    Flows terminals true (if slots.isEmpty then marks else true :: marks) next (f.optional slots) := by
  intro base fail
  cases slots with
  | nil =>
      obtain ⟨length, closed⟩ := body next base next
      exact ⟨length, fun L passed _ lit => closed L passed (fun _ => passed) lit⟩
  | cons slot rest =>
      obtain ⟨length, closed⟩ := body next (base + 1) base
      refine ⟨congrArg (· + 1) length, fun L passed _ lit => ?_⟩
      obtain ⟨entry, turn⟩ := closed L passed (fun _ => lit.head rfl) lit.tail
      exact ⟨entry, .cons (fun _ => by simpa [Op.turns, Op.targets] using passed) turn⟩

theorem loop {least : Nat} (body : ∀ next, Flows terminals sure marks next f) :
    Flows terminals (least == 0) (Live.around true true marks) next (f.loop least) := by
  intro base fail
  obtain ⟨length, closed⟩ := body (base + 1) (base + 2) base
  refine ⟨by simp [Fragment.loop, Live.around, length], fun L passed failed lit => ?_⟩
  obtain ⟨exit, round, inside, enter⟩ := lit.around
  obtain ⟨entry, turn⟩ := closed L (round rfl) (fun _ => exit rfl) inside
  have ends : ∀ t ∈ next :: (if least = 0 then [] else [fail]), L t := by
    refine List.forall_mem_cons.2 ⟨passed, ?_⟩
    split
    · exact List.forall_mem_nil _
    · rename_i some_
      exact List.forall_mem_singleton.2 (failed (by simpa using some_))
  rw [← length] at enter
  refine ⟨enter, .around length (fun _ => ends) (fun _ => ?_) turn ?_⟩
  · exact List.forall_mem_cons.2 ⟨entry, ends⟩
  · simpa [Op.turns, Op.targets] using entry

theorem capture {slot : Nat} {ofRule : Bool} (body : ∀ next, Flows terminals sure marks next f) :
    Flows terminals sure (Live.around true (!sure) marks) next (f.capture slot ofRule) := by
  intro base fail
  obtain ⟨length, closed⟩ := body base (base + 2) (base + 1)
  refine ⟨by simp [Fragment.capture, Live.around, length], fun L passed failed lit => ?_⟩
  obtain ⟨yes, no, inside, enter⟩ := lit.around
  obtain ⟨entry, turn⟩ := closed L (yes rfl) (fun unsure => no (by rw [unsure]; rfl)) inside
  rw [← length] at enter
  refine ⟨enter, .around length (fun _ => ?_) (fun unsure => ?_) turn ?_⟩
  · simpa [Op.turns, Op.targets] using passed
  · simpa [Op.turns, Op.targets] using failed (by simpa using unsure)
  · simpa [Op.turns, Op.targets] using entry

theorem rule {index : Nat} (body : ∀ next, Flows terminals sure marks next f) :
    Flows terminals sure (true :: marks) next (f.rule index next) := by
  intro base fail
  obtain ⟨length, closed⟩ := body base (base + 1) fail
  refine ⟨congrArg (· + 1) length, fun L passed failed lit => ?_⟩
  obtain ⟨entry, turn⟩ := closed L (lit.head rfl) failed lit.tail
  exact ⟨entry, .cons (fun _ => by simpa [Op.turns, Op.targets] using passed) turn⟩

theorem modified {required repeated ahead notAhead : Bool} {slots : List Nat}
    (body : ∀ next, Flows terminals sure marks next f) (next : Nat) :
    Flows terminals (!notAhead && (!required || !repeated && sure))
      (Live.modified required repeated ahead notAhead sure slots marks) next
      (f.modified required repeated ahead notAhead slots) := by
  have counted : ∀ next, Flows terminals (!required || !repeated && sure)
      (Live.counted required repeated slots marks) next
      (if repeated then f.loop (if required then 1 else 0) else if required then f else f.optional slots) := by
    intro next
    cases repeated with
    | true => cases required with
      | true => exact loop body
      | false => exact loop body
    | false => cases required with
      | true => exact body next
      | false => exact optional body
  cases ahead with
  | true => exact (lookahead counted).loose fun both => (Bool.and_eq_true_iff.1 both).2
  | false => cases notAhead with
    | true => exact negativeLookahead counted
    | false => exact counted next

end Fragment.Flows

section

variable {terminals : List Terminal} {table : Array Terminal} {n : Nat}
variable (known : ∀ (id : Nat) (t : Terminal), terminals[id]? = some t → table[id]? = some t)

include known

mutual

theorem Matcher.flows : ∀ m : Matcher, m.Every (Matcher.Linked terminals n) → ∀ next,
    m.fragment.Flows table m.sure m.live next
  | .literal text _, ⟨id, rfl, found⟩, next => by
      rw [Matcher.fragment, Matcher.sure, Matcher.live]
      exact .terminal fun always => by rw [known id _ found, eq_of_beq always]
  | .charClass _ _, ⟨id, _, rfl, _, _⟩, next => by
      rw [Matcher.fragment, Matcher.live]
      exact .terminal nofun
  | .any _, ⟨id, rfl, _⟩, next => by
      rw [Matcher.fragment, Matcher.live]
      exact .terminal nofun
  | .ref _ _, ⟨ruleset, rfl, _⟩, next => by
      rw [Matcher.fragment, Matcher.live]
      exact .call ruleset
  | .group patterns, linked, next => by
      rw [Matcher.fragment, Matcher.sure, Matcher.live]
      exact Pattern.flows patterns linked next
  | .capture patterns _, linked, next => by
      rw [Matcher.fragment, Matcher.sure, Matcher.live]
      exact .capture (Pattern.flows patterns linked)

theorem Token.flows : ∀ ts : List Token, Token.Every (Matcher.Linked terminals n) ts → ∀ next,
    (Token.fragment ts).Flows table (Token.allSure ts) (Token.live ts) next
  | [], _, next => by
      rw [Token.fragment, Token.allSure, Token.live]
      exact .pass
  | ⟨matcher, _, _, _, _, _, _⟩ :: rest, ⟨here, later⟩, next => by
      rw [Token.fragment, Token.allSure, Token.live]
      exact .andThen (.modified (Matcher.flows matcher here)) (Token.flows rest later next)

theorem Pattern.flows : ∀ ps : List Pattern, Pattern.Every (Matcher.Linked terminals n) ps → ∀ next,
    (Pattern.fragment ps).Flows table (Pattern.someSure ps) (Pattern.live ps) next
  | [], _, next => by
      rw [Pattern.fragment, Pattern.someSure, Pattern.live]
      exact .fail
  | ⟨tokens, _, _⟩ :: rest, ⟨here, later⟩, next => by
      rw [Pattern.fragment, Pattern.someSure, Pattern.live]
      refine .orElse ?_ (Pattern.flows rest later next)
      by_cases short : tokens.length < 2
      · rw [if_pos short, if_pos short]
        exact Token.flows tokens here next
      · rw [if_neg short, if_neg short]
        exact .atomically (Token.flows tokens here)

end

/-- Whether some pattern of the rules always matches. -/
def Rule.someSure (rules : List Rule) : Bool := rules.any fun r => Pattern.someSure r.patterns

theorem Rule.flows {rules : List Rule} {index : Nat}
    (linked : ∀ r ∈ rules, Pattern.Every (Matcher.Linked terminals n) r.patterns) :
    (Program.rulesFragment index rules).Flows table (Rule.someSure rules) (Rule.live rules) Program.retAt := by
  induction rules generalizing index with
  | nil => exact .fail
  | cons r rest ih =>
      rw [List.forall_mem_cons] at linked
      exact .orElse (.rule (Pattern.flows known r.patterns linked.1)) (ih linked.2)

end

/-- The terminals of a program are those of its grammar. -/
theorem AnnotatedGrammar.found_toArray (g : AnnotatedGrammar) (id : Nat) (t : Terminal)
    (found : g.terminals[id]? = some t) : g.terminals.toArray[id]? = some t :=
  (List.getElem?_toArray ..).trans found

namespace Program

variable {g : AnnotatedGrammar} {library : Library}

/-- For each op of rulesets whether it may run. -/
def rulesetsLive (rulesets : List Ruleset) : List Bool := rulesets.flatMap fun s => Rule.live s.rules

/-- For each op of the program of a grammar whether it may run. -/
def live (g : AnnotatedGrammar) : List Bool :=
  [true, true] ++ rulesetsLive g.grammar.rulesets ++ [true, true, true]

theorem rulesetOps_flows {terminals : List Terminal} {table : Array Terminal} {n : Nat}
    (known : ∀ (id : Nat) (t : Terminal), terminals[id]? = some t → table[id]? = some t)
    {rulesets : List Ruleset}
    (linked : ∀ s ∈ rulesets, ∀ r ∈ s.rules, Pattern.Every (Matcher.Linked terminals n) r.patterns)
    (base index : Nat) :
    (rulesetOps base index rulesets).1.length = (rulesetsLive rulesets).length ∧
      ∀ L : Nat → Prop, L retAt → L retFailAt → Spots true L base (rulesetsLive rulesets) →
        (∀ entry ∈ (rulesetOps base index rulesets).2, L entry) ∧
          Turn table L (rulesetOps base index rulesets).1 (rulesetsLive rulesets) := by
  induction rulesets generalizing base index with
  | nil => exact ⟨rfl, fun _ _ _ _ => ⟨List.forall_mem_nil _, .nil⟩⟩
  | cons s rest ih =>
      rw [List.forall_mem_cons] at linked
      have first : Fragment.Flows table _ _ retAt (rulesFragment index s.rules) := Rule.flows known linked.1
      obtain ⟨length, closed⟩ := first base retFailAt
      obtain ⟨length', closed'⟩ := ih linked.2
        (base + (rulesFragment index s.rules base retAt retFailAt).ops.length) (index + s.rules.length)
      have sum := congrArg₂ (· + ·) length length'
      refine ⟨List.length_append.trans (sum.trans List.length_append.symm), fun L ret retFail lit => ?_⟩
      have later := lit.right
      rw [← length] at later
      obtain ⟨entry, turn⟩ := closed L ret (fun _ => retFail) lit.left
      obtain ⟨entries, turns⟩ := closed' L ret retFail later
      exact ⟨List.forall_mem_cons.2 ⟨entry, entries⟩, .append length turn turns⟩

/-- The place is one whose op may run. -/
def IsLive (g : AnnotatedGrammar) (op : Nat) : Prop := (live g)[op]? = some true

/-- The ops of a grammar that may run are those marked so: rulesets begin there, and an op that may
run turns to ops that may run. -/
theorem live_closed (linked : g.Linked) (library : Library) :
    (∀ ruleset entry : Nat, (ofGrammar g library).entries[ruleset]? = some entry → IsLive g entry) ∧
    IsLive g (ofGrammar g library).root ∧
    ∀ (op : Nat) (o : Op), (ofGrammar g library).ops[op]? = some o → IsLive g op →
      ∀ t ∈ o.turns (ofGrammar g library).terminals, IsLive g t := by
  obtain ⟨length, closed⟩ := rulesetOps_flows g.found_toArray linked.every 2 0
  have ops : (ofGrammar g library).ops = ([Op.ret, Op.retFail] ++ (rulesetOps 2 0 g.grammar.rulesets).1 ++
      [Op.accept, Op.reject, Op.call g.entry (2 + (rulesetOps 2 0 g.grammar.rulesets).1.length)
        (2 + (rulesetOps 2 0 g.grammar.rulesets).1.length + 1)]).toArray := rfl
  have starts : (ofGrammar g library).entries = (rulesetOps 2 0 g.grammar.rulesets).2.toArray := rfl
  have root : (ofGrammar g library).root = 2 + (rulesetOps 2 0 g.grammar.rulesets).1.length + 2 := rfl
  have all : Spots true (IsLive g) 0 (live g) := fun i set => by rwa [Nat.zero_add]
  have lit : Spots true (IsLive g) 2 (rulesetsLive g.grammar.rulesets) := by
    have inner := all.left.right
    rwa [Nat.zero_add] at inner
  have last := all.right
  rw [List.length_append, Nat.zero_add, ← length, show [true, true].length = 2 from rfl] at last
  generalize rulesetOps 2 0 g.grammar.rulesets = code at length closed ops starts root last
  obtain ⟨entries, turns⟩ := closed (IsLive g) rfl rfl lit
  have stop : ∀ {o : Op}, o.turns (ofGrammar g library).terminals = [] → true = true →
      ∀ t ∈ o.turns (ofGrammar g library).terminals, IsLive g t := fun none _ t named => nomatch none ▸ named
  have turn : Turn (ofGrammar g library).terminals (IsLive g) ([Op.ret, Op.retFail] ++ code.1 ++
      [Op.accept, Op.reject, Op.call g.entry (2 + code.1.length) (2 + code.1.length + 1)]) (live g) := by
    refine .append (by simp [length]) (.append rfl (.cons (stop rfl) (.cons (stop rfl) .nil)) turns)
      (.cons (stop rfl) (.cons (stop rfl) (.cons (fun _ => ?_) .nil)))
    exact List.forall_mem_cons.2 ⟨last.head rfl, List.forall_mem_singleton.2 (last.tail.head rfl)⟩
  refine ⟨fun ruleset entry found => ?_, root ▸ last.tail.tail.head rfl, ?_⟩
  · rw [starts, List.getElem?_toArray] at found
    exact entries entry (List.mem_of_getElem? found)
  · intro op o held set
    rw [ops, List.getElem?_toArray] at held
    exact turn o (List.mem_of_getElem? (List.getElem?_zip_eq_some.2 ⟨held, set⟩))

end Program

/-! ## The marks of a part are where its ops are -/

/-- For each op of a part whether it may run. -/
def Part.live : Part → List Bool
  | .rules _ rs => Rule.live rs
  | .choice patterns => Pattern.live patterns
  | .pattern tokens =>
    if tokens.length < 2 then Token.live tokens
    else Live.around (!Token.allSure tokens) true (Token.live tokens)
  | .sequence tokens => Token.live tokens
  | .token t =>
    Live.modified t.required t.repeated t.ahead t.notAhead t.matcher.sure t.matcher.slots t.matcher.live
  | .quantified t => Live.counted t.required t.repeated t.matcher.slots t.matcher.live
  | .matcher m => m.live

/-- Rules go on where their ruleset is left, whatever the place to go on at. -/
theorem Program.rulesFragment_pass (rules : List Rule) (index base pass pass' fail : Nat) :
    rulesFragment index rules base pass fail = rulesFragment index rules base pass' fail := by
  induction rules generalizing index with
  | nil => rfl
  | cons r rest ih => simp only [rulesFragment, Fragment.orElse, Fragment.rule, ih (index + 1)]

open Program

section

variable {g : AnnotatedGrammar} {part : Part} {base pass fail index : Nat}

theorem Compiled.every (linked : g.Linked) (compiled : Compiled g part base pass fail) :
    part.Every (Matcher.Linked g.terminals g.grammar.rulesets.length) :=
  (compiled.stands {} linked.every ⟨g.entry, rfl, linked.entry⟩).every

/-- Nothing of a part runs whose mark is not set. -/
theorem Compiled.spots (linked : g.Linked) (compiled : Compiled g part base pass fail) :
    Spots false (fun t => ¬ IsLive g t) base part.live := by
  induction compiled with
  | whole =>
      intro i found
      cases i <;> cases found
  | @ruleset before after s split =>
      have every := linked.every
      rw [Grammar.Every, split, List.forall_mem_append] at every
      have length := (rulesetOps_flows g.found_toArray every.1 2 0).1
      have whole : Spots false (fun t => ¬ IsLive g t) 0 (live g) := by
        intro i found set
        rw [Nat.zero_add] at set
        cases found.symm.trans set
      have rulesets := whole.left.right
      rw [split, rulesetsLive, List.flatMap_append, Nat.zero_add] at rulesets
      rw [length]
      exact rulesets.right.left
  | @rule index base pass fail r rest rules ih =>
      have every := rules.every linked
      have length := (Rule.flows g.found_toArray (fun r' member => every r' (List.mem_cons_of_mem r member)) :
        Fragment.Flows _ _ _ _ (rulesFragment (index + 1) rest)) base fail
      rw [rulesFragment_pass rest (index + 1) base pass retAt, length.1]
      have inner := ih.right.tail
      rwa [Live.length_behind] at inner
  | @laterRules index base pass fail r rest rules ih => exact ih.left.behind
  | @pattern base pass fail x rest choice ih =>
      obtain ⟨tokens, canFail, id⟩ := x
      have length := (Pattern.flows g.found_toArray rest (choice.every linked).2 pass base fail).1
      rw [Part.live, Pattern.live] at ih
      have inner := ih.right
      rwa [Live.length_behind, ← length] at inner
  | @laterPatterns base pass fail x rest choice ih =>
      obtain ⟨tokens, canFail, id⟩ := x
      rw [Part.live, Pattern.live] at ih
      exact ih.left.behind
  | @lone base pass fail tokens pattern short ih =>
      rw [Part.live, if_pos short] at ih
      exact ih
  | @several base pass fail tokens pattern long ih =>
      rw [Part.live, if_neg long] at ih
      exact ih.inside
  | @token base pass fail t rest sequence ih =>
      obtain ⟨matcher, required, repeated, ahead, notAhead, id, pos⟩ := t
      have length := (Token.flows g.found_toArray rest (sequence.every linked).2 pass base fail).1
      rw [Part.live, Token.live] at ih
      have inner := ih.right
      rwa [← length] at inner
  | @laterTokens base pass fail t rest sequence ih =>
      obtain ⟨matcher, required, repeated, ahead, notAhead, id, pos⟩ := t
      rw [Part.live, Token.live] at ih
      exact ih.left
  | @ahead base pass fail t token ahead ih =>
      simp only [Part.live, Live.modified, ahead, if_true] at ih
      exact ih.inside
  | @notAhead base pass fail t token ahead notAhead ih =>
      simp only [Part.live, Live.modified, ahead, notAhead, if_true] at ih
      exact ih.inside
  | @here base pass fail t token ahead notAhead ih =>
      simp only [Part.live, Live.modified, ahead, notAhead] at ih
      exact ih
  | @repeated base pass fail t quantified repeated ih =>
      simp only [Part.live, Live.counted, repeated, if_true] at ih
      exact ih.inside
  | @once base pass fail t quantified repeated required ih =>
      simp only [Part.live, Live.counted, repeated, required, if_true] at ih
      exact ih
  | @optional base pass fail t quantified repeated required slots ih =>
      simp only [Part.live, Live.counted, repeated, required, slots, if_true] at ih
      exact ih
  | @optionalSlots base pass fail t quantified repeated required slots ih =>
      simp only [Part.live, Live.counted, repeated, required, slots] at ih
      exact ih.tail
  | @group base pass fail patterns matcher ih =>
      rw [Part.live, Matcher.live] at ih
      exact ih
  | @capture base pass fail slot patterns matcher ih =>
      rw [Part.live, Matcher.live] at ih
      exact ih.inside

/-- Nothing runs of the options after a sure one. -/
theorem Compiled.not_live_options {x : Pattern} {rest : List Pattern} (linked : g.Linked)
    (choice : Compiled g (.choice (x :: rest)) base pass fail) (sure : x.sure = true) {t : Nat}
    (later : Among base (Pattern.fragment rest).size t) : ¬ IsLive g t := by
  have spots := choice.spots linked
  obtain ⟨tokens, canFail, id⟩ := x
  rw [Fragment.size, (Pattern.flows g.found_toArray rest (choice.every linked).2 0 2 1).1] at later
  rw [Part.live, Pattern.live, show Token.allSure tokens = true from sure] at spots
  exact spots.left.all later

/-- Nothing runs of the rules after one with a sure pattern. -/
theorem Compiled.not_live_rules {r : Rule} {rest : List Rule} (linked : g.Linked)
    (rules : Compiled g (.rules index (r :: rest)) base pass fail) (sure : Pattern.someSure r.patterns = true)
    {t : Nat} (later : Among base (rulesFragment (index + 1) rest).size t) : ¬ IsLive g t := by
  have spots := rules.spots linked
  have every := rules.every linked
  have length := ((Rule.flows g.found_toArray (fun r' member => every r' (List.mem_cons_of_mem r member)) :
    Fragment.Flows _ _ _ _ (rulesFragment (index + 1) rest)) 2 1).1
  rw [Fragment.size, show (0 : Nat) = retAt from rfl, length] at later
  rw [Part.live, Rule.live, sure] at spots
  exact spots.left.all later

end

end PegFlow
