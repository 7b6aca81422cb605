/-
# PegFlow.Proofs.Program.Depth -- how many lookaheads are around an op

`Matcher.depths`, `Token.depths` and `Pattern.depths` say of each op of a fragment how many
lookaheads of the fragment are around it. An op leads to ops at its own depth, but for the one
that begins to look ahead and those that stop it (`Op.Leads`, `Program.depths_lead`); the op that
begins is itself outside. Some lookahead is around an op of the program exactly when the op
belongs to a token that only looks ahead (`AnnotatedGrammar.LooksAhead`,
`Program.depthAt_pos_iff`).
-/
import Mathlib.Data.List.MinMax
import PegFlow.Proofs.Program.Live

namespace PegFlow

set_option autoImplicit false

/-- The depths of the places that an op names, when the op is at the depth `here`. -/
def Op.Leads (D : Nat → Nat) (here : Nat) : Op → Prop
  | .lookEnter next => D next = here + 1
  | .lookExit next => D next + 1 = here
  | .ret => here = 0
  | .retFail => here = 0
  | o => ∀ t ∈ o.targets, D t = here

/-! ## Depths of fragments -/

namespace Depth

/-- Depths of a body between two ops before it and one behind it, which goes `n` deeper. -/
def between (n : Nat) (body : List Nat) : List Nat := n :: n :: body.map (· + n) ++ [0]

/-- Depths of a token that is repeated or not and required or not. -/
def counted (required repeated : Bool) (slots : List Nat) (body : List Nat) : List Nat :=
  if repeated then between 0 body
  else if required then body
  else if slots.isEmpty then body
  else 0 :: body

/-- Depths of a token, which may only look ahead. -/
def modified (required repeated looks : Bool) (slots : List Nat) (body : List Nat) : List Nat :=
  if looks then between 1 (counted required repeated slots body) else counted required repeated slots body

end Depth

mutual

/-- For each op of a matcher how many lookaheads are around it. -/
def Matcher.depths : Matcher → List Nat
  | .literal _ terminal => terminal.elim [] fun _ => [0]
  | .charClass _ terminal => terminal.elim [] fun _ => [0]
  | .any terminal => terminal.elim [] fun _ => [0]
  | .ref _ target => target.elim [] fun _ => [0]
  | .group patterns => Pattern.depths patterns
  | .capture patterns _ => Depth.between 0 (Pattern.depths patterns)

/-- For each op of a sequence how many lookaheads are around it. -/
def Token.depths : List Token → List Nat
  | [] => []
  | ⟨matcher, required, repeated, ahead, notAhead, _, _⟩ :: rest =>
    Token.depths rest ++ Depth.modified required repeated (ahead || notAhead) matcher.slots matcher.depths

/-- For each op of a choice how many lookaheads are around it. -/
def Pattern.depths : List Pattern → List Nat
  | [] => []
  | ⟨tokens, _, _⟩ :: rest =>
    Pattern.depths rest ++ if tokens.length < 2 then Token.depths tokens else Depth.between 0 (Token.depths tokens)

end

/-- For each op of rules how many lookaheads are around it. -/
def Rule.depths : List Rule → List Nat
  | [] => []
  | r :: rest => Rule.depths rest ++ 0 :: Pattern.depths r.patterns

/-- The places from `base` on are so much deeper than `d`. -/
def Levels (D : Nat → Nat) (d base : Nat) (marks : List Nat) : Prop :=
  ∀ i k, marks[i]? = some k → D (base + i) = d + k

namespace Levels

variable {D : Nat → Nat} {d base k n : Nat} {marks more : List Nat}

theorem head (levels : Levels D d base (k :: marks)) : D base = d + k := levels 0 k rfl

theorem tail (levels : Levels D d base (k :: marks)) : Levels D d (base + 1) marks := by
  intro i k' found
  rw [Nat.add_assoc, Nat.add_comm 1 i]
  exact levels (i + 1) k' (by simpa using found)

theorem left (levels : Levels D d base (marks ++ more)) : Levels D d base marks := by
  intro i k found
  exact levels i k (by rw [List.getElem?_append_left (List.getElem?_eq_some_iff.1 found).1, found])

theorem right (levels : Levels D d base (marks ++ more)) : Levels D d (base + marks.length) more := by
  intro i k found
  rw [Nat.add_assoc]
  exact levels (marks.length + i) k (by rw [List.getElem?_append_right (by omega)]; simpa using found)

theorem inside (levels : Levels D d base (Depth.between n marks)) : Levels D (d + n) (base + 2) marks := by
  intro i k found
  have inner := levels.left.tail.tail i (k + n) (by rw [List.getElem?_map, found]; rfl)
  rwa [Nat.add_comm k n, ← Nat.add_assoc d] at inner

theorem around (levels : Levels D d base (Depth.between n marks)) :
    D base = d + n ∧ D (base + 1) = d + n ∧ D (base + 2 + marks.length) = d := by
  have last := levels.right.head
  rw [List.length_cons, List.length_cons, List.length_map,
    show base + (marks.length + 1 + 1) = base + 2 + marks.length by omega] at last
  exact ⟨levels.left.head, levels.left.tail.head, last⟩

end Levels

/-- Each op leads to the depths that it should, from its own. -/
def Lead (D : Nat → Nat) (d : Nat) (ops : List Op) (marks : List Nat) : Prop :=
  ∀ o k, (o, k) ∈ ops.zip marks → o.Leads D (d + k)

namespace Lead

variable {D : Nat → Nat} {d k n : Nat} {o one other last : Op} {ops ops' : List Op} {marks marks' : List Nat}

theorem nil : Lead D d [] marks := fun _ _ member => nomatch member

theorem cons (first : o.Leads D (d + k)) (rest : Lead D d ops marks) : Lead D d (o :: ops) (k :: marks) := by
  intro o' k' member
  rw [List.zip_cons_cons, List.mem_cons, Prod.mk.injEq] at member
  obtain ⟨rfl, rfl⟩ | later := member
  · exact first
  · exact rest o' k' later

theorem append (length : ops.length = marks.length) (one : Lead D d ops marks)
    (other : Lead D d ops' marks') : Lead D d (ops ++ ops') (marks ++ marks') := by
  intro o k member
  rw [List.zip_append length, List.mem_append] at member
  exact member.elim (one o k) (other o k)

theorem between (length : ops.length = marks.length) (first : one.Leads D (d + n))
    (second : other.Leads D (d + n)) (body : Lead D (d + n) ops marks) (behind : last.Leads D d) :
    Lead D d (one :: other :: ops ++ [last]) (Depth.between n marks) := by
  refine .append (by simp [length]) (.cons first (.cons second fun o k member => ?_)) (.cons behind .nil)
  rw [List.zip_map_right, List.mem_map] at member
  obtain ⟨⟨o', k'⟩, inner, same⟩ := member
  cases same
  have leads := body o' k' inner
  rwa [Nat.add_assoc, Nat.add_comm n k'] at leads

end Lead

/-- The depths are those of the fragment placed to go on at `pass`: it begins where it ends, and its
ops lead to the depths that they should. -/
def Fragment.Deep (marks : List Nat) (pass : Nat) (f : Fragment) : Prop :=
  ∀ base fail, (f base pass fail).ops.length = marks.length ∧
    ∀ (D : Nat → Nat) (d : Nat), D pass = d → D fail = d → Levels D d base marks →
      D (f base pass fail).entry = d ∧ Lead D d (f base pass fail).ops marks

namespace Fragment.Deep

variable {marks marks' : List Nat} {next : Nat} {f f' : Fragment}

theorem pass : Deep [] next Fragment.pass := fun _ _ => ⟨rfl, fun _ _ passed _ _ => ⟨passed, .nil⟩⟩

theorem fail : Deep [] next Fragment.fail := fun _ _ => ⟨rfl, fun _ _ _ failed _ => ⟨failed, .nil⟩⟩

theorem terminal (id : Nat) : Deep [0] next (Fragment.terminal id) := by
  refine fun base fail => ⟨rfl, fun D d passed failed levels => ⟨levels.head, .cons ?_ .nil⟩⟩
  simp [Op.Leads, Op.targets, passed, failed]

theorem call (ruleset : Nat) : Deep [0] next (Fragment.call ruleset) := by
  refine fun base fail => ⟨rfl, fun D d passed failed levels => ⟨levels.head, .cons ?_ .nil⟩⟩
  simp [Op.Leads, Op.targets, passed, failed]

theorem orElse (one : Deep marks next f) (other : Deep marks' next f') :
    Deep (marks' ++ marks) next (f.orElse f') := by
  intro base fail
  obtain ⟨length', leads'⟩ := other base fail
  obtain ⟨length, leads⟩ := one (base + (f' base next fail).ops.length) (f' base next fail).entry
  have sum := congrArg₂ (· + ·) length' length
  refine ⟨List.length_append.trans (sum.trans List.length_append.symm), fun D d passed failed levels => ?_⟩
  have later := levels.right
  rw [← length'] at later
  obtain ⟨entry', lead'⟩ := leads' D d passed failed levels.left
  obtain ⟨entry, lead⟩ := leads D d passed entry' later
  exact ⟨entry, .append length' lead' lead⟩

theorem andThen (one : ∀ next, Deep marks next f) (other : Deep marks' next f') :
    Deep (marks' ++ marks) next (f.andThen f') := by
  intro base fail
  obtain ⟨length', leads'⟩ := other base fail
  obtain ⟨length, leads⟩ := one (f' base next fail).entry (base + (f' base next fail).ops.length) fail
  have sum := congrArg₂ (· + ·) length' length
  refine ⟨List.length_append.trans (sum.trans List.length_append.symm), fun D d passed failed levels => ?_⟩
  have later := levels.right
  rw [← length'] at later
  obtain ⟨entry', lead'⟩ := leads' D d passed failed levels.left
  obtain ⟨entry, lead⟩ := leads D d entry' failed later
  exact ⟨entry, .append length' lead' lead⟩

theorem atomically (body : ∀ next, Deep marks next f) : Deep (Depth.between 0 marks) next f.atomically := by
  intro base fail
  obtain ⟨length, leads⟩ := body (base + 1) (base + 2) base
  refine ⟨by simp [Fragment.atomically, Depth.between, length], fun D d passed failed levels => ?_⟩
  obtain ⟨rollback, commit, enter⟩ := levels.around
  obtain ⟨entry, lead⟩ := leads D d commit rollback levels.inside
  rw [← length] at enter
  refine ⟨enter, .between length ?_ ?_ lead ?_⟩
  · simpa [Op.Leads, Op.targets] using failed
  · simpa [Op.Leads, Op.targets] using passed
  · simpa [Op.Leads, Op.targets] using entry

theorem lookahead (body : ∀ next, Deep marks next f) : Deep (Depth.between 1 marks) next f.lookahead := by
  intro base fail
  obtain ⟨length, leads⟩ := body base (base + 2) (base + 1)
  refine ⟨by simp [Fragment.lookahead, Depth.between, length], fun D d passed failed levels => ?_⟩
  obtain ⟨yes, no, enter⟩ := levels.around
  obtain ⟨entry, lead⟩ := leads D (d + 1) yes no levels.inside
  rw [← length] at enter
  refine ⟨enter, .between length ?_ ?_ lead entry⟩
  · simpa [Op.Leads] using passed
  · simpa [Op.Leads] using failed

theorem negativeLookahead (body : ∀ next, Deep marks next f) :
    Deep (Depth.between 1 marks) next f.negativeLookahead := by
  intro base fail
  obtain ⟨length, leads⟩ := body (base + 1) (base + 2) base
  refine ⟨by simp [Fragment.negativeLookahead, Depth.between, length], fun D d passed failed levels => ?_⟩
  obtain ⟨no, yes, enter⟩ := levels.around
  obtain ⟨entry, lead⟩ := leads D (d + 1) yes no levels.inside
  rw [← length] at enter
  refine ⟨enter, .between length ?_ ?_ lead entry⟩
  · simpa [Op.Leads] using passed
  · simpa [Op.Leads] using failed

theorem optional {slots : List Nat} (body : ∀ next, Deep marks next f) :
    Deep (if slots.isEmpty then marks else 0 :: marks) next (f.optional slots) := by
  intro base fail
  cases slots with
  | nil =>
      obtain ⟨length, leads⟩ := body next base next
      exact ⟨length, fun D d passed _ levels => leads D d passed passed levels⟩
  | cons slot rest =>
      obtain ⟨length, leads⟩ := body next (base + 1) base
      refine ⟨congrArg (· + 1) length, fun D d passed _ levels => ?_⟩
      obtain ⟨entry, lead⟩ := leads D d passed levels.head levels.tail
      exact ⟨entry, .cons (by simpa [Op.Leads, Op.targets] using passed) lead⟩

theorem loop {least : Nat} (body : ∀ next, Deep marks next f) :
    Deep (Depth.between 0 marks) next (f.loop least) := by
  intro base fail
  obtain ⟨length, leads⟩ := body (base + 1) (base + 2) base
  refine ⟨by simp [Fragment.loop, Depth.between, length], fun D d passed failed levels => ?_⟩
  obtain ⟨exit, round, enter⟩ := levels.around
  obtain ⟨entry, lead⟩ := leads D d round exit levels.inside
  rw [← length] at enter
  refine ⟨enter, .between length ?_ ?_ lead ?_⟩
  · simp [Op.Leads, Op.targets, passed, failed]
  · simp [Op.Leads, Op.targets, passed, failed, entry]
  · simpa [Op.Leads, Op.targets] using entry

theorem capture {slot : Nat} {ofRule : Bool} (body : ∀ next, Deep marks next f) :
    Deep (Depth.between 0 marks) next (f.capture slot ofRule) := by
  intro base fail
  obtain ⟨length, leads⟩ := body base (base + 2) (base + 1)
  refine ⟨by simp [Fragment.capture, Depth.between, length], fun D d passed failed levels => ?_⟩
  obtain ⟨yes, no, enter⟩ := levels.around
  obtain ⟨entry, lead⟩ := leads D d yes no levels.inside
  rw [← length] at enter
  refine ⟨enter, .between length ?_ ?_ lead ?_⟩
  · simpa [Op.Leads, Op.targets] using passed
  · simpa [Op.Leads, Op.targets] using failed
  · simpa [Op.Leads, Op.targets] using entry

theorem rule {index : Nat} (body : ∀ next, Deep marks next f) : Deep (0 :: marks) next (f.rule index next) := by
  intro base fail
  obtain ⟨length, leads⟩ := body base (base + 1) fail
  refine ⟨congrArg (· + 1) length, fun D d passed failed levels => ?_⟩
  obtain ⟨entry, lead⟩ := leads D d levels.head failed levels.tail
  exact ⟨entry, .cons (by simpa [Op.Leads, Op.targets] using passed) lead⟩

theorem modified {required repeated ahead notAhead : Bool} {slots : List Nat}
    (body : ∀ next, Deep marks next f) (next : Nat) :
    Deep (Depth.modified required repeated (ahead || notAhead) slots marks) next
      (f.modified required repeated ahead notAhead slots) := by
  have counted : ∀ next, Deep (Depth.counted required repeated slots marks) next
      (if repeated then f.loop (if required then 1 else 0) else if required then f else f.optional slots) := by
    intro next
    cases repeated with
    | true => exact loop body
    | false => cases required with
      | true => exact body next
      | false => exact optional body
  cases ahead with
  | true => exact lookahead counted
  | false => cases notAhead with
    | true => exact negativeLookahead counted
    | false => exact counted next

end Fragment.Deep

mutual

theorem Matcher.fragment_deep : ∀ (m : Matcher) (next : Nat), m.fragment.Deep m.depths next
  | .literal _ none, _ => .fail
  | .literal _ (some id), _ => .terminal id
  | .charClass _ none, _ => .fail
  | .charClass _ (some id), _ => .terminal id
  | .any none, _ => .fail
  | .any (some id), _ => .terminal id
  | .ref _ none, _ => .fail
  | .ref _ (some ruleset), _ => .call ruleset
  | .group patterns, next => by
      rw [Matcher.fragment, Matcher.depths]
      exact Pattern.fragment_deep patterns next
  | .capture patterns _, next => by
      rw [Matcher.fragment, Matcher.depths]
      exact .capture (Pattern.fragment_deep patterns)

theorem Token.fragment_deep : ∀ (ts : List Token) (next : Nat), (Token.fragment ts).Deep (Token.depths ts) next
  | [], _ => .pass
  | ⟨matcher, _, _, _, _, _, _⟩ :: rest, next => by
      rw [Token.fragment, Token.depths]
      exact .andThen (.modified (Matcher.fragment_deep matcher)) (Token.fragment_deep rest next)

theorem Pattern.fragment_deep : ∀ (ps : List Pattern) (next : Nat),
    (Pattern.fragment ps).Deep (Pattern.depths ps) next
  | [], _ => .fail
  | ⟨tokens, _, _⟩ :: rest, next => by
      rw [Pattern.fragment, Pattern.depths]
      refine .orElse ?_ (Pattern.fragment_deep rest next)
      by_cases short : tokens.length < 2
      · rw [if_pos short, if_pos short]
        exact Token.fragment_deep tokens next
      · rw [if_neg short, if_neg short]
        exact .atomically (Token.fragment_deep tokens)

end

theorem Rule.fragment_deep (rules : List Rule) (index : Nat) :
    (Program.rulesFragment index rules).Deep (Rule.depths rules) Program.retAt := by
  induction rules generalizing index with
  | nil => exact .fail
  | cons r rest ih => exact .orElse (.rule (Pattern.fragment_deep r.patterns)) (ih (index + 1))

/-! ## Depths of programs -/

namespace Program

/-- For each op of rulesets how many lookaheads are around it. -/
def rulesetsDepths (rulesets : List Ruleset) : List Nat := rulesets.flatMap fun s => Rule.depths s.rules

/-- For each op of the program of a grammar how many lookaheads are around it. -/
def depths (g : AnnotatedGrammar) : List Nat := [0, 0] ++ rulesetsDepths g.grammar.rulesets ++ [0, 0, 0]

/-- How many lookaheads are around an op of the program of a grammar. -/
def depthAt (g : AnnotatedGrammar) (op : Nat) : Nat := (depths g)[op]?.getD 0

/-- How many lookaheads are around some op of the program, at most. -/
def deepest (g : AnnotatedGrammar) : Nat := (depths g).foldr max 0

theorem depthAt_le_deepest (g : AnnotatedGrammar) (op : Nat) : depthAt g op ≤ deepest g := by
  rw [depthAt]
  cases found : (depths g)[op]? with
  | none => exact Nat.zero_le _
  | some depth => exact List.le_max_of_le' 0 (List.mem_of_getElem? found) (Nat.le_refl depth)

theorem rulesetOps_deep (rulesets : List Ruleset) (base index : Nat) :
    (rulesetOps base index rulesets).1.length = (rulesetsDepths rulesets).length ∧
      ∀ D : Nat → Nat, D retAt = 0 → D retFailAt = 0 → Levels D 0 base (rulesetsDepths rulesets) →
        (∀ entry ∈ (rulesetOps base index rulesets).2, D entry = 0) ∧
          Lead D 0 (rulesetOps base index rulesets).1 (rulesetsDepths rulesets) := by
  induction rulesets generalizing base index with
  | nil => exact ⟨rfl, fun _ _ _ _ => ⟨List.forall_mem_nil _, .nil⟩⟩
  | cons s rest ih =>
      obtain ⟨length, leads⟩ := Rule.fragment_deep s.rules index base retFailAt
      obtain ⟨length', leads'⟩ := ih (base + (rulesFragment index s.rules base retAt retFailAt).ops.length)
        (index + s.rules.length)
      have sum := congrArg₂ (· + ·) length length'
      refine ⟨List.length_append.trans (sum.trans List.length_append.symm), fun D ret retFail levels => ?_⟩
      have later := levels.right
      rw [← length] at later
      obtain ⟨entry, lead⟩ := leads D 0 ret retFail levels.left
      obtain ⟨entries, lead'⟩ := leads' D ret retFail later
      exact ⟨List.forall_mem_cons.2 ⟨entry, entries⟩, .append length lead lead'⟩

/-- Each place of the program is at its depth. -/
theorem depths_levels (g : AnnotatedGrammar) : Levels (depthAt g) 0 0 (depths g) := by
  intro i k found
  rw [Nat.zero_add, Nat.zero_add, depthAt, found]
  rfl

theorem depths_rulesets (g : AnnotatedGrammar) :
    Levels (depthAt g) 0 2 (rulesetsDepths g.grammar.rulesets) := by
  have inner := (depths_levels g).left.right
  rwa [Nat.zero_add] at inner

/-- Rulesets begin outside every lookahead, and so does the program; each op leads to the depths
that it should. -/
theorem depths_lead (g : AnnotatedGrammar) (library : Library) :
    (∀ ruleset entry : Nat, (ofGrammar g library).entries[ruleset]? = some entry → depthAt g entry = 0) ∧
    depthAt g (ofGrammar g library).root = 0 ∧
    ∀ (op : Nat) (o : Op), (ofGrammar g library).ops[op]? = some o → o.Leads (depthAt g) (depthAt g op) := by
  obtain ⟨length, leads⟩ := rulesetOps_deep g.grammar.rulesets 2 0
  have ops : (ofGrammar g library).ops = ([Op.ret, Op.retFail] ++ (rulesetOps 2 0 g.grammar.rulesets).1 ++
      [Op.accept, Op.reject, Op.call g.entry (2 + (rulesetOps 2 0 g.grammar.rulesets).1.length)
        (2 + (rulesetOps 2 0 g.grammar.rulesets).1.length + 1)]).toArray := rfl
  have starts : (ofGrammar g library).entries = (rulesetOps 2 0 g.grammar.rulesets).2.toArray := rfl
  have root : (ofGrammar g library).root = 2 + (rulesetOps 2 0 g.grammar.rulesets).1.length + 2 := rfl
  obtain ⟨entries, lead⟩ := leads (depthAt g) rfl rfl (depths_rulesets g)
  have last := (depths_levels g).right
  rw [List.length_append, Nat.zero_add, ← length, show [0, 0].length = 2 from rfl] at last
  generalize rulesetOps 2 0 g.grammar.rulesets = code at length ops starts root last entries lead
  have whole : Lead (depthAt g) 0 ([Op.ret, Op.retFail] ++ code.1 ++
      [Op.accept, Op.reject, Op.call g.entry (2 + code.1.length) (2 + code.1.length + 1)]) (depths g) := by
    refine .append (by simp [length]) (.append rfl (.cons rfl (.cons rfl .nil)) lead)
      (.cons ?_ (.cons ?_ (.cons ?_ .nil)))
    · exact List.forall_mem_nil _
    · exact List.forall_mem_nil _
    · exact List.forall_mem_cons.2 ⟨last.head, List.forall_mem_singleton.2 last.tail.head⟩
  refine ⟨fun ruleset entry found => ?_, root ▸ last.tail.tail.head, fun op o held => ?_⟩
  · rw [starts, List.getElem?_toArray] at found
    exact entries entry (List.mem_of_getElem? found)
  · rw [ops, List.getElem?_toArray] at held
    have lt : op < (depths g).length := by
      have := (List.getElem?_eq_some_iff.1 held).1
      simpa [depths, length] using this
    have found : (depths g)[op]? = some (depthAt g op) := by
      rw [depthAt, List.getElem?_eq_getElem lt]
      rfl
    have leads := whole o (depthAt g op) (List.mem_of_getElem? (List.getElem?_zip_eq_some.2 ⟨held, found⟩))
    rwa [Nat.zero_add] at leads

end Program

/-! ## Tokens that only look ahead -/

/-- For each op of a part how many lookaheads of the part are around it. -/
def Part.depths : Part → List Nat
  | .rules _ rs => Rule.depths rs
  | .choice patterns => Pattern.depths patterns
  | .pattern tokens =>
    if tokens.length < 2 then Token.depths tokens else Depth.between 0 (Token.depths tokens)
  | .sequence tokens => Token.depths tokens
  | .token t => Depth.modified t.required t.repeated t.isPredicate t.matcher.slots t.matcher.depths
  | .quantified t => Depth.counted t.required t.repeated t.matcher.slots t.matcher.depths
  | .matcher m => m.depths

/-- The op belongs to a token that only looks ahead: it runs after it began to and before it
stops. Of the ops of such a token only the last one does not belong, which begins. -/
def AnnotatedGrammar.LooksAhead (g : AnnotatedGrammar) (op : Nat) : Prop :=
  ∃ t base pass fail, Compiled g (.token t) base pass fail ∧ t.isPredicate = true ∧
    Among base ((Part.token t).fragment.size - 1) op

open Program

section

variable {g : AnnotatedGrammar} {part : Part} {base pass fail : Nat}

/-- The ops of a part are as deep as its marks say, from the depth of the part on. -/
theorem Compiled.levels (compiled : Compiled g part base pass fail) :
    ∃ d, Levels (depthAt g) d base part.depths := by
  induction compiled with
  | whole =>
      have last := (depths_levels g).right
      rw [List.length_append, Nat.zero_add, ← (rulesetOps_deep g.grammar.rulesets 2 0).1] at last
      refine ⟨0, fun i k found => ?_⟩
      cases i with
      | zero =>
          cases found
          exact last.tail.tail.head
      | succ i => cases found
  | @ruleset before after s split =>
      have rulesets := depths_rulesets g
      rw [split, rulesetsDepths, List.flatMap_append] at rulesets
      refine ⟨0, ?_⟩
      rw [(rulesetOps_deep before 2 0).1]
      exact rulesets.right.left
  | @rule index base pass fail r rest rules ih =>
      obtain ⟨d, levels⟩ := ih
      have length := (Rule.fragment_deep rest (index + 1) base fail).1
      rw [rulesFragment_pass rest (index + 1) base pass retAt, length]
      exact ⟨d, levels.right.tail⟩
  | @laterRules index base pass fail r rest rules ih =>
      obtain ⟨d, levels⟩ := ih
      exact ⟨d, levels.left⟩
  | @pattern base pass fail x rest choice ih =>
      obtain ⟨tokens, canFail, id⟩ := x
      obtain ⟨d, levels⟩ := ih
      rw [(Pattern.fragment_deep rest pass base fail).1]
      rw [Part.depths, Pattern.depths] at levels
      exact ⟨d, levels.right⟩
  | @laterPatterns base pass fail x rest choice ih =>
      obtain ⟨tokens, canFail, id⟩ := x
      obtain ⟨d, levels⟩ := ih
      rw [Part.depths, Pattern.depths] at levels
      exact ⟨d, levels.left⟩
  | @lone base pass fail tokens pattern short ih =>
      rw [Part.depths, if_pos short] at ih
      exact ih
  | @several base pass fail tokens pattern long ih =>
      obtain ⟨d, levels⟩ := ih
      rw [Part.depths, if_neg long] at levels
      exact ⟨d, levels.inside⟩
  | @token base pass fail t rest sequence ih =>
      obtain ⟨matcher, required, repeated, ahead, notAhead, id, pos⟩ := t
      obtain ⟨d, levels⟩ := ih
      rw [(Token.fragment_deep rest pass base fail).1]
      rw [Part.depths, Token.depths] at levels
      exact ⟨d, levels.right⟩
  | @laterTokens base pass fail t rest sequence ih =>
      obtain ⟨matcher, required, repeated, ahead, notAhead, id, pos⟩ := t
      obtain ⟨d, levels⟩ := ih
      rw [Part.depths, Token.depths] at levels
      exact ⟨d, levels.left⟩
  | @ahead base pass fail t token ahead ih =>
      obtain ⟨d, levels⟩ := ih
      simp only [Part.depths, Depth.modified, Token.isPredicate, ahead, Bool.true_or, if_true] at levels
      exact ⟨d + 1, levels.inside⟩
  | @notAhead base pass fail t token ahead notAhead ih =>
      obtain ⟨d, levels⟩ := ih
      simp only [Part.depths, Depth.modified, Token.isPredicate, notAhead, Bool.or_true, if_true] at levels
      exact ⟨d + 1, levels.inside⟩
  | @here base pass fail t token ahead notAhead ih =>
      simp only [Part.depths, Depth.modified, Token.isPredicate, ahead, notAhead] at ih
      exact ih
  | @repeated base pass fail t quantified repeated ih =>
      obtain ⟨d, levels⟩ := ih
      simp only [Part.depths, Depth.counted, repeated, if_true] at levels
      exact ⟨d, levels.inside⟩
  | @once base pass fail t quantified repeated required ih =>
      simp only [Part.depths, Depth.counted, repeated, required, if_true] at ih
      exact ih
  | @optional base pass fail t quantified repeated required slots ih =>
      simp only [Part.depths, Depth.counted, repeated, required, slots, if_true] at ih
      exact ih
  | @optionalSlots base pass fail t quantified repeated required slots ih =>
      obtain ⟨d, levels⟩ := ih
      simp only [Part.depths, Depth.counted, repeated, required, slots] at levels
      exact ⟨d, levels.tail⟩
  | @group base pass fail patterns matcher ih =>
      rw [Part.depths, Matcher.depths] at ih
      exact ih
  | @capture base pass fail slot patterns matcher ih =>
      obtain ⟨d, levels⟩ := ih
      rw [Part.depths, Matcher.depths] at levels
      exact ⟨d, levels.inside⟩

/-- Inside a token that only looks ahead all but the last op are deeper than around it. -/
theorem Depth.pos_of_between (body : List Nat) {i : Nat} (lt : i + 1 < (between 1 body).length) :
    ∃ k, 0 < k ∧ (between 1 body)[i]? = some k := by
  rw [between, List.length_append, List.length_singleton, Nat.add_lt_add_iff_right] at lt
  refine ⟨_, ?_, (List.getElem?_append_left lt).trans (List.getElem?_eq_getElem lt)⟩
  have member := List.getElem_mem lt
  generalize (1 :: 1 :: body.map (· + 1))[i] = k at member
  simp only [List.mem_cons, List.mem_map] at member
  omega

theorem Depth.lt_of_between {n k i : Nat} {body : List Nat} (found : (between n body)[i]? = some k)
    (pos : 0 < k) : i + 1 < (between n body).length := by
  have lt := (List.getElem?_eq_some_iff.1 found).1
  by_contra last
  have here : i = (n :: n :: body.map (· + n)).length := by
    rw [between, List.length_append, List.length_singleton] at lt last
    omega
  rw [between, here, List.getElem?_concat_length] at found
  cases found
  exact absurd pos (Nat.lt_irrefl 0)

theorem Compiled.size_token {t : Token} : (Part.token t).fragment.size = (Part.token t).depths.length := by
  rw [Fragment.size]
  exact ((Fragment.Deep.modified (Matcher.fragment_deep t.matcher) 0 :
    (Part.token t).fragment.Deep _ _) 2 1).1

theorem AnnotatedGrammar.LooksAhead.depth_pos {op : Nat} (looks : g.LooksAhead op) : 0 < depthAt g op := by
  obtain ⟨t, base, pass, fail, compiled, predicate, le, lt⟩ := looks
  obtain ⟨d, levels⟩ := compiled.levels
  rw [Compiled.size_token] at lt
  rw [Part.depths, Depth.modified, if_pos predicate] at levels lt
  generalize Depth.counted t.required t.repeated t.matcher.slots t.matcher.depths = body at levels lt
  obtain ⟨i, rfl⟩ := Nat.exists_eq_add_of_le le
  obtain ⟨k, pos, found⟩ := Depth.pos_of_between body (i := i) (by omega)
  rw [levels i k found]
  omega

/-- Places that are deeper than others belong to tokens that only look ahead. -/
def AnnotatedGrammar.Looking (g : AnnotatedGrammar) (base : Nat) (marks : List Nat) : Prop :=
  ∀ i k, marks[i]? = some k → 0 < k → g.LooksAhead (base + i)

namespace AnnotatedGrammar.Looking

variable {k : Nat} {marks more : List Nat}

theorem nil : g.Looking base [] := nofun

theorem cons (rest : g.Looking (base + 1) marks) : g.Looking base (0 :: marks) := by
  intro i k found pos
  cases i with
  | zero =>
      cases found
      exact absurd pos (Nat.lt_irrefl 0)
  | succ i =>
      have looks := rest i k found pos
      rwa [Nat.add_assoc, Nat.add_comm 1] at looks

theorem append (one : g.Looking base marks) (other : g.Looking (base + marks.length) more) :
    g.Looking base (marks ++ more) := by
  intro i k found pos
  rw [List.getElem?_append] at found
  split at found
  · exact one i k found pos
  · have looks := other _ k found pos
    rwa [Nat.add_assoc, Nat.add_sub_of_le (by omega)] at looks

theorem between (body : g.Looking (base + 2) marks) : g.Looking base (Depth.between 0 marks) := by
  have same : marks.map (· + 0) = marks := List.map_id marks
  rw [Depth.between, same]
  exact .append (.cons (.cons body)) (.cons .nil)

end AnnotatedGrammar.Looking

/-- Of a token that only looks ahead all ops but the last belong to it; any other is as its
matcher. -/
theorem Compiled.looking_token {t : Token} (token : Compiled g (.token t) base pass fail)
    (inner : ∀ {base pass fail : Nat}, Compiled g (.matcher t.matcher) base pass fail →
      g.Looking base t.matcher.depths) : g.Looking base (Part.token t).depths := by
  cases predicate : t.isPredicate with
  | true =>
      intro i k found pos
      have size := Compiled.size_token (t := t)
      rw [Part.depths, Depth.modified, if_pos predicate] at found size
      have lt := Depth.lt_of_between found pos
      exact ⟨t, base, pass, fail, token, predicate, by omega, by omega⟩
  | false =>
      obtain ⟨ahead, notAhead⟩ : t.ahead = false ∧ t.notAhead = false := Bool.or_eq_false_iff.1 predicate
      have quantified := token.here ahead notAhead
      simp only [Part.depths, Depth.modified, predicate, Depth.counted]
      cases repeated : t.repeated with
      | true => exact .between (inner (quantified.repeated repeated))
      | false => cases required : t.required with
        | true => exact inner (quantified.once repeated required)
        | false => cases slots : t.matcher.slots.isEmpty with
          | true => exact inner (quantified.optional repeated required slots)
          | false => exact .cons (inner (quantified.optionalSlots repeated required slots))

mutual

theorem Matcher.looking : ∀ (m : Matcher) {base pass fail : Nat}, Compiled g (.matcher m) base pass fail →
    g.Looking base m.depths
  | .literal _ none, _, _, _, _ => .nil
  | .literal _ (some _), _, _, _, _ => .cons .nil
  | .charClass _ none, _, _, _, _ => .nil
  | .charClass _ (some _), _, _, _, _ => .cons .nil
  | .any none, _, _, _, _ => .nil
  | .any (some _), _, _, _, _ => .cons .nil
  | .ref _ none, _, _, _, _ => .nil
  | .ref _ (some _), _, _, _, _ => .cons .nil
  | .group patterns, _, _, _, matcher => Pattern.looking patterns matcher.group
  | .capture patterns _, _, _, _, matcher => .between (Pattern.looking patterns matcher.capture)

theorem Token.looking : ∀ (ts : List Token) {base pass fail : Nat}, Compiled g (.sequence ts) base pass fail →
    g.Looking base (Token.depths ts)
  | [], _, _, _, _ => .nil
  | ⟨matcher, required, repeated, ahead, notAhead, id, pos⟩ :: rest, base, pass, fail, sequence => by
      rw [Token.depths]
      refine .append (Token.looking rest sequence.laterTokens) ?_
      have token := sequence.token
      rw [(Token.fragment_deep rest pass base fail).1] at token
      exact token.looking_token (Matcher.looking matcher)

theorem Pattern.looking : ∀ (ps : List Pattern) {base pass fail : Nat}, Compiled g (.choice ps) base pass fail →
    g.Looking base (Pattern.depths ps)
  | [], _, _, _, _ => .nil
  | ⟨tokens, _, _⟩ :: rest, base, pass, fail, choice => by
      rw [Pattern.depths]
      refine .append (Pattern.looking rest choice.laterPatterns) ?_
      have pattern := choice.pattern
      rw [(Pattern.fragment_deep rest pass base fail).1] at pattern
      by_cases short : tokens.length < 2
      · rw [if_pos short]
        exact Token.looking tokens (pattern.lone short)
      · rw [if_neg short]
        exact .between (Token.looking tokens (pattern.several short))

end

theorem Rule.looking {rules : List Rule} {index : Nat} (compiled : Compiled g (.rules index rules) base pass fail) :
    g.Looking base (Rule.depths rules) := by
  induction rules generalizing index with
  | nil => exact .nil
  | cons r rest ih =>
      rw [Rule.depths]
      refine .append (ih compiled.laterRules) (.cons ?_)
      have choice := compiled.rule
      rw [rulesFragment_pass rest (index + 1) base pass retAt, (Rule.fragment_deep rest (index + 1) base fail).1]
        at choice
      exact Pattern.looking r.patterns choice

theorem rulesets_looking (before rest : List Ruleset) (split : g.grammar.rulesets = before ++ rest) :
    g.Looking (2 + (rulesetsDepths before).length) (rulesetsDepths rest) := by
  induction rest generalizing before with
  | nil => exact .nil
  | cons s rest ih =>
      have here := Rule.looking (Compiled.ruleset split)
      have later := ih (before ++ [s]) (by rw [split, List.append_assoc]; rfl)
      rw [(rulesetOps_deep before 2 0).1] at here
      rw [rulesetsDepths, List.flatMap_append, List.flatMap_singleton, List.length_append,
        ← Nat.add_assoc] at later
      exact .append here later

/-- Some lookahead is around an op exactly when the op belongs to a token that only looks ahead. -/
theorem Program.depthAt_pos_iff {op : Nat} : 0 < depthAt g op ↔ g.LooksAhead op := by
  refine ⟨fun pos => ?_, AnnotatedGrammar.LooksAhead.depth_pos⟩
  have whole : g.Looking 0 (depths g) := by
    have rulesets := rulesets_looking [] g.grammar.rulesets rfl
    refine .append (.append (.cons (.cons .nil)) ?_) (.cons (.cons (.cons .nil)))
    exact rulesets
  rw [depthAt] at pos
  cases found : (depths g)[op]? with
  | none =>
      rw [found] at pos
      exact absurd pos (Nat.lt_irrefl 0)
  | some k =>
      rw [found] at pos
      have looks := whole op k found pos
      rwa [Nat.zero_add] at looks

end

end PegFlow
