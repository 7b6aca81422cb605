/-
# PegFlow.Proofs.Program.Closed -- the places that the ops of a program name

The program of a grammar names no place outside itself, and the op that leaves a ruleset
that matched is named by the ops that work out an output and by no others
(`Program.ofGrammar_closed`). The fragments of patterns hold ops that match and nothing else
(`Pattern.fragment_inner`).
-/
import PegFlow.Proofs.Program.Relocate

namespace PegFlow

set_option autoImplicit false

/-- The op matches: it gives no output, leaves no ruleset and ends no parse. -/
def Op.Inner : Op → Prop
  | .output .. => False
  | .ret => False
  | .retFail => False
  | .accept => False
  | .reject => False
  | _ => True

namespace Fragment

/-- All ops of the fragment match. -/
def Inner (f : Fragment) : Prop := ∀ base pass fail, ∀ o ∈ (f base pass fail).ops, o.Inner

namespace Inner

variable {f g : Fragment}

theorem pass : Fragment.pass.Inner := fun _ _ _ _ member => nomatch member

theorem fail : Fragment.fail.Inner := fun _ _ _ _ member => nomatch member

theorem terminal (id : Nat) : (Fragment.terminal id).Inner := by
  intro base pass fail o member
  rw [List.mem_singleton.1 member]
  trivial

theorem call (ruleset : Nat) : (Fragment.call ruleset).Inner := by
  intro base pass fail o member
  rw [List.mem_singleton.1 member]
  trivial

theorem orElse (one : f.Inner) (other : g.Inner) : (f.orElse g).Inner := by
  intro base pass fail o member
  rcases List.mem_append.1 member with second | first
  · exact other _ _ _ o second
  · exact one _ _ _ o first

theorem andThen (one : f.Inner) (other : g.Inner) : (f.andThen g).Inner := by
  intro base pass fail o member
  rcases List.mem_append.1 member with second | first
  · exact other _ _ _ o second
  · exact one _ _ _ o first

/-- Two ops before a body and one behind it. -/
theorem around {a b c : Op} {ops : List Op} (body : ∀ o ∈ ops, o.Inner) (before : a.Inner)
    (middle : b.Inner) (behind : c.Inner) : ∀ o ∈ a :: b :: ops ++ [c], o.Inner := by
  intro o member
  simp only [List.cons_append, List.mem_cons, List.mem_append, List.not_mem_nil, or_false] at member
  rcases member with rfl | rfl | inside | rfl
  · exact before
  · exact middle
  · exact body o inside
  · exact behind

theorem atomically (body : f.Inner) : f.atomically.Inner := fun _ _ _ =>
  around (body _ _ _) trivial trivial trivial

theorem lookahead (body : f.Inner) : f.lookahead.Inner := fun _ _ _ =>
  around (body _ _ _) trivial trivial trivial

theorem negativeLookahead (body : f.Inner) : f.negativeLookahead.Inner := fun _ _ _ =>
  around (body _ _ _) trivial trivial trivial

theorem loop (least : Nat) (body : f.Inner) : (f.loop least).Inner := fun _ _ _ =>
  around (body _ _ _) trivial trivial trivial

theorem capture (slot : Nat) (ofRule : Bool) (body : f.Inner) : (f.capture slot ofRule).Inner :=
  fun _ _ _ => around (body _ _ _) trivial trivial trivial

theorem optional (slots : List Nat) (body : f.Inner) : (f.optional slots).Inner := by
  intro base pass fail o member
  unfold Fragment.optional at member
  split at member
  · exact body _ _ _ o member
  · rcases List.mem_cons.1 member with rfl | inside
    · trivial
    · exact body _ _ _ o inside

theorem modified (required repeated ahead notAhead : Bool) (slots : List Nat) (body : f.Inner) :
    (f.modified required repeated ahead notAhead slots).Inner := by
  have counted : (if repeated then f.loop (if required then 1 else 0)
      else if required then f else f.optional slots).Inner := by
    cases repeated with
    | true => exact body.loop _
    | false =>
        cases required with
        | true => exact body
        | false => exact body.optional slots
  cases ahead with
  | true => exact counted.lookahead
  | false =>
      cases notAhead with
      | true => exact counted.negativeLookahead
      | false => exact counted

end Inner

end Fragment

mutual

theorem Matcher.fragment_inner : ∀ m : Matcher, m.fragment.Inner
  | .literal _ terminal => by
      rw [Matcher.fragment]
      cases terminal with
      | none => exact .fail
      | some id => exact .terminal id
  | .charClass _ terminal => by
      rw [Matcher.fragment]
      cases terminal with
      | none => exact .fail
      | some id => exact .terminal id
  | .any terminal => by
      rw [Matcher.fragment]
      cases terminal with
      | none => exact .fail
      | some id => exact .terminal id
  | .ref _ target => by
      rw [Matcher.fragment]
      cases target with
      | none => exact .fail
      | some ruleset => exact .call ruleset
  | .group patterns => by
      rw [Matcher.fragment]
      exact Pattern.fragment_inner patterns
  | .capture patterns slot => by
      rw [Matcher.fragment]
      exact (Pattern.fragment_inner patterns).capture slot _

theorem Token.fragment_inner : ∀ ts : List Token, (Token.fragment ts).Inner
  | [] => by
      rw [Token.fragment]
      exact .pass
  | ⟨matcher, required, repeated, ahead, notAhead, _, _⟩ :: rest => by
      rw [Token.fragment]
      exact ((Matcher.fragment_inner matcher).modified required repeated ahead notAhead
        matcher.slots).andThen (Token.fragment_inner rest)

theorem Pattern.fragment_inner : ∀ ps : List Pattern, (Pattern.fragment ps).Inner
  | [] => by
      rw [Pattern.fragment]
      exact .fail
  | ⟨tokens, _, _⟩ :: rest => by
      rw [Pattern.fragment]
      refine Fragment.Inner.orElse ?_ (Pattern.fragment_inner rest)
      split
      · exact Token.fragment_inner tokens
      · exact (Token.fragment_inner tokens).atomically

end

/-! ## Rules, rulesets and programs -/

/-- A place among so many ones from `base` on. -/
def Among (base length t : Nat) : Prop := base ≤ t ∧ t < base + length

instance (base length t : Nat) : Decidable (Among base length t) :=
  inferInstanceAs (Decidable (base ≤ t ∧ t < base + length))

/-- The op works out an output and then leaves its ruleset, or it matches and names places
among those of a stretch of ops and `fail`. -/
def Op.Stays (base length fail : Nat) (o : Op) : Prop :=
  (∃ rule, o = .output rule Program.retAt) ∨
    (o.Inner ∧ ∀ t ∈ o.targets, Among base length t ∨ t = fail)

theorem Op.Stays.mono {base length base' length' fail fail' : Nat} {o : Op} (h : o.Stays base length fail)
    (inside : ∀ t, Among base length t → Among base' length' t)
    (exit : Among base' length' fail ∨ fail = fail') : o.Stays base' length' fail' := by
  rcases h with output | ⟨inner, targets⟩
  · exact Or.inl output
  · refine Or.inr ⟨inner, fun t named => ?_⟩
    rcases targets t named with here | rfl
    · exact Or.inl (inside t here)
    · exact exit

namespace Program

/-- The ops of rules, and where they begin. -/
theorem rulesFragment_stays (rules : List Rule) (index base pass fail : Nat) :
    let code := rulesFragment index rules base pass fail
    (∀ o ∈ code.ops, o.Stays base code.ops.length fail) ∧
      (Among base code.ops.length code.entry ∨ code.entry = fail) := by
  induction rules generalizing index with
  | nil => exact ⟨fun _ member => (nomatch member), Or.inr rfl⟩
  | cons r rest ih =>
      obtain ⟨others, entry⟩ := ih (index + 1)
      rw [rulesFragment]
      simp only [Fragment.orElse, Fragment.rule]
      generalize rulesFragment (index + 1) rest base pass fail = second at others entry ⊢
      generalize eq : Pattern.fragment r.patterns (base + second.ops.length + 1)
        (base + second.ops.length) second.entry = code
      have movable := (Pattern.fragment_movable r.patterns).targets (base + second.ops.length + 1)
        (base + second.ops.length) second.entry
      have inner := Pattern.fragment_inner r.patterns (base + second.ops.length + 1)
        (base + second.ops.length) second.entry
      rw [eq] at movable inner
      have place : ∀ t, (base + second.ops.length + 1 ≤ t ∧
            t < base + second.ops.length + 1 + code.ops.length) ∨ t = base + second.ops.length ∨
            t = second.entry →
          Among base (second.ops.length + (code.ops.length + 1)) t ∨ t = fail := by
        intro t named
        simp only [Among] at entry ⊢
        rcases named with here | rfl | rfl
        · exact Or.inl (by omega)
        · exact Or.inl (by omega)
        · exact entry.imp_left fun here => by omega
      rw [List.length_append, List.length_cons]
      refine ⟨fun o member => ?_, place _ movable.2⟩
      rcases List.mem_append.1 member with later | first
      · refine (others o later).mono (fun t here => ?_) (Or.inr rfl)
        simp only [Among] at here ⊢
        omega
      · rcases List.mem_cons.1 first with rfl | inside
        · exact Or.inl ⟨index, rfl⟩
        · exact Or.inr ⟨inner o inside, fun t named => place t (movable.1 o inside t named)⟩

/-- The ops of rulesets, and where they begin. -/
theorem rulesetOps_stays (rulesets : List Ruleset) (base index : Nat) :
    let code := rulesetOps base index rulesets
    (∀ o ∈ code.1, o.Stays base code.1.length retFailAt) ∧
      ∀ entry ∈ code.2, Among base code.1.length entry ∨ entry = retFailAt := by
  induction rulesets generalizing base index with
  | nil => exact ⟨fun _ member => (nomatch member), fun _ member => (nomatch member)⟩
  | cons s rest ih =>
      obtain ⟨ops, entry⟩ := rulesFragment_stays s.rules index base retAt retFailAt
      simp only [rulesetOps]
      generalize rulesFragment index s.rules base retAt retFailAt = first at ops entry ⊢
      obtain ⟨others, entries⟩ := ih (base + first.ops.length) (index + s.rules.length)
      generalize rulesetOps (base + first.ops.length) (index + s.rules.length) rest = later at others entries ⊢
      rw [List.length_append]
      constructor
      · intro o member
        rcases List.mem_append.1 member with here | there
        · refine (ops o here).mono (fun t inside => ?_) (Or.inr rfl)
          simp only [Among] at inside ⊢
          omega
        · refine (others o there).mono (fun t inside => ?_) (Or.inr rfl)
          simp only [Among] at inside ⊢
          omega
      · intro e member
        rcases List.mem_cons.1 member with rfl | there
        · refine entry.imp_left fun inside => ?_
          simp only [Among] at inside ⊢
          omega
        · refine (entries e there).imp_left fun inside => ?_
          simp only [Among] at inside ⊢
          omega

/-- The program names no place outside itself, and only ops that work out an output lead to
the op that leaves a ruleset that matched. -/
structure Closed (p : Program) : Prop where
  targets : ∀ (op : Nat) (o : Op), p.ops[op]? = some o → ∀ t ∈ o.targets, t < p.ops.size
  entries : ∀ ruleset entry : Nat, p.entries[ruleset]? = some entry →
    entry < p.ops.size ∧ entry ≠ retAt
  leaves : ∀ (op : Nat) (o : Op), p.ops[op]? = some o → retAt ∈ o.targets →
    ∃ rule, o = .output rule retAt
  ret : ∀ op : Nat, p.ops[op]? = some .ret → op = retAt

theorem ofGrammar_closed (g : AnnotatedGrammar) (library : Library) : (ofGrammar g library).Closed := by
  obtain ⟨stays, entries⟩ := rulesetOps_stays g.grammar.rulesets 2 0
  have ops : (ofGrammar g library).ops = ([Op.ret, Op.retFail] ++ (rulesetOps 2 0 g.grammar.rulesets).1 ++
      [Op.accept, Op.reject, Op.call g.entry (2 + (rulesetOps 2 0 g.grammar.rulesets).1.length)
        (2 + (rulesetOps 2 0 g.grammar.rulesets).1.length + 1)]).toArray := rfl
  have starts : (ofGrammar g library).entries = (rulesetOps 2 0 g.grammar.rulesets).2.toArray := rfl
  generalize rulesetOps 2 0 g.grammar.rulesets = code at stays entries ops starts
  have size : (ofGrammar g library).ops.size = code.1.length + 5 := by
    rw [ops]
    simp
  have each : ∀ (op : Nat) (o : Op), (ofGrammar g library).ops[op]? = some o →
      o ∈ code.1 ∨ o.targets = [] ∨
        o = .call g.entry (2 + code.1.length) (2 + code.1.length + 1) := by
    intro op o held
    rw [ops, List.getElem?_toArray] at held
    have member := List.mem_of_getElem? held
    simp only [List.mem_append, List.mem_cons, List.not_mem_nil, or_false] at member
    rcases member with ((rfl | rfl) | inside) | rfl | rfl | rfl
    · exact Or.inr (Or.inl rfl)
    · exact Or.inr (Or.inl rfl)
    · exact Or.inl inside
    · exact Or.inr (Or.inl rfl)
    · exact Or.inr (Or.inl rfl)
    · exact Or.inr (Or.inr rfl)
  refine ⟨?_, ?_, ?_, ?_⟩
  · intro op o held t named
    rcases each op o held with inside | none | rfl
    · rcases stays o inside with ⟨rule, rfl⟩ | ⟨-, targets⟩
      · have : t = retAt := by simpa [Op.targets] using named
        rw [this, size, retAt]
        omega
      · rcases targets t named with here | rfl
        · simp only [Among] at here
          omega
        · rw [size, retFailAt]
          omega
    · rw [none] at named
      cases named
    · simp only [Op.targets, List.mem_cons, List.not_mem_nil, or_false] at named
      omega
  · intro ruleset entry found
    rw [starts, List.getElem?_toArray] at found
    rcases entries entry (List.mem_of_getElem? found) with here | rfl
    · simp only [Among, retAt] at here ⊢
      omega
    · simp only [retFailAt, retAt]
      omega
  · intro op o held named
    rcases each op o held with inside | none | rfl
    · rcases stays o inside with output | ⟨-, targets⟩
      · exact output
      · rcases targets retAt named with here | same
        · simp only [Among, retAt] at here
          omega
        · simp [retAt, retFailAt] at same
    · rw [none] at named
      cases named
    · simp only [Op.targets, List.mem_cons, List.not_mem_nil, or_false, retAt] at named
      omega
  · intro op held
    cases op with
    | zero => rfl
    | succ op =>
        rw [ops, List.getElem?_toArray] at held
        have member := List.mem_of_getElem? (show (Op.retFail :: (code.1 ++ _))[op]? = some .ret from held)
        simp only [List.mem_cons, List.mem_append, List.not_mem_nil, or_false] at member
        rcases member with same | inside | same | same | same
        · cases same
        · rcases stays _ inside with ⟨rule, same⟩ | ⟨inner, -⟩
          · cases same
          · exact inner.elim
        · cases same
        · cases same
        · cases same

end Program

end PegFlow
