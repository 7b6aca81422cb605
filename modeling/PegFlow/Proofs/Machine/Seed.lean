/-
# PegFlow.Proofs.Machine.Seed -- left recursion is warned of

By induction on the tree of a grammar: the fragment of a matcher, of tokens and of patterns
guards the calls that it can make first, and uses up input unless it may match nothing by the
marks of the grammar (`Matcher.guards`, `Token.guards`, `Pattern.guards`). By induction on how
many ops may run, so does a ruleset from its entry on, each time that it is tried
(`AnnotatedGrammar.safe_entry`).

Hence a ruleset that is called again where it is under way is warned of, and one that is not
marked nullable uses up input when it matches (`Machine.Reachable.seed_warned`).
-/
import PegFlow.Proofs.Grammar.Nullable
import PegFlow.Proofs.Machine.Guard
import PegFlow.Grammar.Build

namespace PegFlow

set_option autoImplicit false
set_option linter.unusedSectionVars false

open Text Machine Relation

section

variable {g : Grammar} {p : Program} {T : String} {N : Nat} {lost : State → State → Prop}

/-! ## Trees -/

theorem Guards.modified {calls : List Nat} {nothing : Bool} {f : Fragment}
    (required repeated ahead notAhead : Bool) (slots : List Nat)
    (body : ∀ pass, Guards g p T N calls nothing Back pass f) (pass : Nat) :
    Guards g p T N calls (!required || ahead || notAhead || nothing) Back pass
      (f.modified required repeated ahead notAhead slots) := by
  have counted : ∀ pass, Guards g p T N calls (!required || nothing) Back pass
      (if repeated then f.loop (if required then 1 else 0) else if required then f else f.optional slots) := by
    intro pass
    cases repeated with
    | true => cases required with
      | true => exact loop le_rfl body
      | false => exact loop (Nat.zero_le 1) body
    | false => cases required with
      | true => exact body pass
      | false => exact optional body
  cases ahead with
  | true => exact (lookahead counted).imp (List.Subset.refl _) (fun _ => by simp) fun _ _ back => back
  | false =>
      cases notAhead with
      | true => exact (negativeLookahead counted).imp (List.Subset.refl _) (fun _ => by simp) fun _ _ back => back
      | false => simpa [Fragment.modified] using counted pass

variable {terminals : List Terminal} {rulesets : Nat}
variable (known : ∀ (id : Nat) (t : Terminal), terminals[id]? = some t → p.terminals[id]? = some t)
variable (calls : ∀ ruleset < rulesets, ∀ pass,
  Guards g p T N [ruleset] (g.nullable[ruleset]?.getD false) Back pass (Fragment.call ruleset))

include known calls

mutual

theorem Matcher.guards : ∀ m : Matcher, m.Every (Matcher.Linked terminals rulesets) → ∀ pass,
    Guards g p T N (m.leadingCalls g.nullable) (m.nullable g.nullable) Back pass m.fragment
  | .literal text _, ⟨id, rfl, found⟩, pass => by
      rw [Matcher.fragment, Matcher.nullable]
      exact .terminal (known id _ found) fun no empty => by
        cases empty
        simp at no
  | .charClass spec _, ⟨id, t, rfl, compiled, found⟩, pass => by
      rw [Matcher.fragment, Matcher.nullable]
      exact .terminal (known id t found) fun _ empty => by
        cases empty
        cases outcome : CharClass.compile? spec <;> simp [Terminal.ofClass?, outcome, Except.map] at compiled
  | .any _, ⟨id, rfl, found⟩, pass => by
      rw [Matcher.fragment, Matcher.nullable]
      exact .terminal (known id _ found) fun _ => nofun
  | .ref _ _, ⟨ruleset, rfl, lt⟩, pass => by
      rw [Matcher.fragment, Matcher.nullable, Matcher.leadingCalls]
      exact calls ruleset lt pass
  | .group patterns, linked, pass => by
      rw [Matcher.fragment, Matcher.nullable, Matcher.leadingCalls]
      exact Pattern.guards patterns linked pass
  | .capture patterns slot, linked, pass => by
      rw [Matcher.fragment, Matcher.nullable, Matcher.leadingCalls]
      exact .capture (Pattern.guards patterns linked)

theorem Token.guards : ∀ ts : List Token, Token.Every (Matcher.Linked terminals rulesets) ts →
    (∀ pass, Guards g p T N (Token.leadingCalls g.nullable ts) (Token.allNullable g.nullable ts) (Moved true)
      pass (Token.fragment ts)) ∧
    (ts.length < 2 → ∀ pass, Guards g p T N (Token.leadingCalls g.nullable ts)
      (Token.allNullable g.nullable ts) Back pass (Token.fragment ts))
  | [], _ => by
      rw [Token.fragment, Token.allNullable]
      exact ⟨fun _ => .passing, fun _ _ => .passing⟩
  | ⟨matcher, required, repeated, ahead, notAhead, id, pos⟩ :: rest, ⟨here, later⟩ => by
      have first := Guards.modified required repeated ahead notAhead matcher.slots (Matcher.guards matcher here)
      have others := Token.guards rest later
      rw [Token.fragment, Token.allNullable, Token.leadingCalls, Token.nullable_eq]
      refine ⟨fun pass => ?_, fun short pass => ?_⟩
      · exact Guards.andThen (fun pass => (first pass).loose) (others.1 pass) fun _ _ _ moved moved' =>
          (moved.trans moved').loose fun _ => rfl
      · cases rest with
        | nil =>
            rw [Token.fragment, Token.allNullable]
            have free : Guards g p T N (Token.leadingCalls g.nullable []) true (fun _ _ => False) pass Fragment.pass :=
              .passing
            exact Guards.andThen first free fun _ _ _ _ no => no.elim
        | cons t ts =>
            simp only [List.length_cons] at short
            omega

theorem Pattern.guards : ∀ ps : List Pattern, Pattern.Every (Matcher.Linked terminals rulesets) ps → ∀ pass,
    Guards g p T N (Pattern.leadingCalls g.nullable ps) (Pattern.someNullable g.nullable ps) Back pass
      (Pattern.fragment ps)
  | [], _, pass => by
      rw [Pattern.fragment]
      exact .failing
  | ⟨tokens, _, _⟩ :: rest, ⟨here, later⟩, pass => by
      have tokens_ := Token.guards tokens here
      rw [Pattern.fragment, Pattern.leadingCalls, Pattern.someNullable]
      refine Guards.orElse ?_ (Pattern.guards rest later pass)
      by_cases short : tokens.length < 2
      · rw [if_pos short]
        exact tokens_.2 short pass
      · rw [if_neg short]
        exact .atomically tokens_.1

end

end

/-! ## Calls -/

namespace Frame

theorem plain_noteRecursion (ruleset pos : Nat) (frames : List Frame) :
    (noteRecursion ruleset pos frames).map plain = frames.map plain := by
  induction frames with
  | nil => rfl
  | cons f rest ih =>
      rw [noteRecursion]
      split
      · rfl
      · rw [List.map_cons, ih, List.map_cons]

end Frame

/-- A ruleset was called last in the state, and it is safe to go on where the call was made. -/
structure Calling (g : Grammar) (p : Program) (T : String) (n : Nat) (f : Frame) (rest : List Frame)
    (s : State) : Prop where
  frames : s.frames = f :: rest
  start : f.start = s.pos
  lined : Lined g s.pos [] s.frames
  passes : ∀ t, Moved (g.emptyMark f.ruleset) { s with frames := rest } t → Safe g p T n f.pass t
  fails : ∀ t, Back { s with frames := rest } t → Safe g p T n f.fail t

/-- The ruleset is safe to begin at its entry. -/
def SafeEntry (g : Grammar) (p : Program) (T : String) (n ruleset entry : Nat) : Prop :=
  ∀ f rest s, f.ruleset = ruleset → Calling g p T n f rest s → Safe g p T n entry s

section

variable {g : Grammar} {p : Program} {T : String} {n ruleset entry : Nat} {s s' : State} {f : Frame}
  {rest : List Frame}

theorem Guards.call {N pass : Nat}
    (entered : ∀ n < N, ∀ entry, p.entries[ruleset]? = some entry → SafeEntry g p T n ruleset entry) :
    Guards g p T N [ruleset] (g.emptyMark ruleset) Back pass (Fragment.call ruleset) := by
  intro n le base fail held s lined passes fails
  have here : p.ops[base]? = some (.call ruleset pass fail) := held.head
  have agrees : Agrees g p (Buffer.complete T) base s := by
    refine ⟨fun found => ?_, fun left => ?_⟩
    · cases here.symm.trans found
      exact lined
    · rcases left.leaves with leaves | ⟨leaves, -⟩ <;> cases here.symm.trans leaves
  show Safe g p T n base s
  cases found : s.frames.find? fun f => f.isAt ruleset s.pos with
  | none =>
      refine .turn agrees fun m lt op' s' taken => ?_
      simp only [step, here, State.call, found] at taken
      split at taken
      · cases taken
      · rename_i isFirst
        cases taken
        refine entered m (by omega) op' isFirst _ s.frames _ rfl ⟨rfl, rfl, ?_, ?_, ?_⟩
        · exact ⟨le_rfl, fun _ => List.forall_mem_nil _, fun _ best => absurd best (by simp), lined⟩
        · exact fun t moved => (passes t moved).mono lt.le
        · exact fun t back => (fails t back).mono lt.le
  | some f =>
      have member := List.mem_of_find?_eq_some found
      have key : f.key = (ruleset, s.pos) := Frame.isAt_iff.1 (by simpa using List.find?_some found)
      have isRuleset : f.ruleset = ruleset := congrArg Prod.fst key
      have start : f.start = s.pos := congrArg Prod.snd key
      have answered := (lined.answered f member).1
      rw [Frame.Answered, start, isRuleset] at answered
      refine .turn agrees fun m lt op' s' taken => ?_
      have noted : SameOpen s { s with frames := Frame.noteRecursion ruleset s.pos s.frames } :=
        ⟨rfl, rfl, rfl, rfl, Frame.plain_noteRecursion ruleset s.pos s.frames⟩
      simp only [step, here, State.call, found] at taken
      split at taken
      · rename_i seed best
        cases taken
        obtain ⟨forward, further⟩ := answered seed best
        have same : SameOpen s { s with
            result := some seed.value, pos := seed.stop, frames := Frame.noteRecursion ruleset s.pos s.frames } :=
          ⟨rfl, rfl, rfl, rfl, noted.frames⟩
        exact (passes _ ⟨same, forward, fun no => further (Grammar.not_mayBeEmpty_iff.2 no)⟩).mono lt.le
      · cases taken
        exact (fails _ ⟨noted, rfl⟩).mono lt.le

/-! ## Rulesets -/

theorem Frame.eq_of_plain {f f' : Frame} (same : f'.plain = f.plain) :
    f' = { f with leftRecursive := f'.leftRecursive } := by
  cases f
  cases f'
  simp only [plain, mk.injEq] at same
  obtain ⟨rfl, rfl, rfl, rfl, rfl, -, rfl⟩ := same
  rfl

theorem SameOpen.uncons (same : SameOpen s s') (frames : s.frames = f :: rest) : ∃ again rest',
    s'.frames = { f with leftRecursive := again } :: rest' ∧ rest'.map Frame.plain = rest.map Frame.plain := by
  have all := same.frames
  rw [frames, List.map_cons] at all
  obtain ⟨f', rest', frames', plain, below⟩ := List.map_eq_cons_iff.1 all
  rw [Frame.eq_of_plain plain] at frames'
  exact ⟨_, rest', frames', below⟩

/-- A ruleset that matched is left with its result, or with an earlier one, or is tried again. -/
theorem State.leave_cases {op : Nat} {t : State} (frames : s.frames = f :: rest)
    (taken : State.leave p s = .next op t) :
    (op = f.pass ∧ t = { s with frames := rest }) ∨
    (∃ seed, f.best = some seed ∧ op = f.pass ∧
      t = { s with frames := rest, pos := seed.stop, result := some seed.value }) ∨
    (p.entries[f.ruleset]? = some op ∧ t = s.retrying f rest) := by
  have leaving := State.leave_leaving p s
  rw [taken] at leaving
  cases leaving with
  | result frames' =>
      cases frames.symm.trans frames'
      exact Or.inl ⟨rfl, rfl⟩
  | earlier frames' _ best =>
      cases frames.symm.trans frames'
      exact Or.inr (Or.inl ⟨_, best, rfl, rfl⟩)
  | again frames' _ _ found =>
      cases frames.symm.trans frames'
      exact Or.inr (Or.inr ⟨found, rfl⟩)

theorem Lined.of_begun {calls : List Nat} (lined : Lined g s.pos [] s.frames) (frames : s.frames = f :: rest)
    (first : ∀ called ∈ calls, g.CallsFirst f.ruleset called) : Lined g s.pos calls s.frames := by
  rw [frames] at lined ⊢
  exact ⟨lined.1, fun _ => first, lined.2.2⟩

/-- A ruleset that matched is safe to leave. -/
theorem Calling.ret (calling : Calling g p T n f rest s) (held : p.ops[Program.retAt]? = some .ret)
    (again : ∀ m < n, ∀ entry, p.entries[f.ruleset]? = some entry → SafeEntry g p T m f.ruleset entry)
    (moved : Moved (g.emptyMark f.ruleset) s s') : Safe g p T n Program.retAt s' := by
  obtain ⟨frames, start, lined, passes, fails⟩ := calling
  obtain ⟨noted, rest', frames', below⟩ := moved.uncons frames
  rw [frames] at lined
  obtain ⟨-, -, answered, lower⟩ := lined
  have leave : step p (Buffer.complete T) Program.retAt s' = State.leave p s' := by simp only [step, held]
  have agrees : Agrees g p (Buffer.complete T) Program.retAt s' := by
    refine ⟨fun found => ?_, fun {_ t} left marked => ?_⟩
    · cases held.symm.trans found
    obtain ⟨rfl, others⟩ := List.cons.inj (left.frames.symm.trans frames')
    have further := moved.further (Grammar.not_mayBeEmpty_iff.1 marked)
    rcases State.leave_cases frames' (leave.symm.trans left.taken) with ⟨-, rfl⟩ | ⟨seed, best, -, rfl⟩ | ⟨-, rfl⟩
    · show f.start < s'.pos
      omega
    · exact (answered seed best).2 marked
    · exact absurd (congrArg List.length others) (by simp [State.retrying])
  refine .turn agrees fun m lt op' t taken => ?_
  rcases State.leave_cases frames' (leave.symm.trans taken) with ⟨rfl, rfl⟩ | ⟨seed, best, rfl, rfl⟩ | ⟨found, rfl⟩
  · have same : SameOpen { s with frames := rest } { s' with frames := rest' } :=
      ⟨moved.marks, moved.captureStarts, moved.loops, moved.quiet, below⟩
    exact (passes _ ⟨same, moved.forward, moved.further⟩).mono lt.le
  · obtain ⟨forward, further⟩ := answered seed best
    have same : SameOpen { s with frames := rest }
        { s' with frames := rest', pos := seed.stop, result := some seed.value } :=
      ⟨moved.marks, moved.captureStarts, moved.loops, moved.quiet, below⟩
    rw [start] at forward further
    exact (passes _ ⟨same, forward, fun no => further (Grammar.not_mayBeEmpty_iff.2 no)⟩).mono lt.le
  · have begun : SameOpen { s with frames := rest } { s'.retrying { f with leftRecursive := noted } rest' with
        frames := rest' } := ⟨moved.marks, moved.captureStarts, moved.loops, moved.quiet, below⟩
    have back : Back { s with frames := rest } { s'.retrying { f with leftRecursive := noted } rest' with
        frames := rest' } := ⟨begun, start⟩
    refine again m lt op' found { f with leftRecursive := noted, best := some ⟨s'.result.getD .null, s'.pos⟩ } rest' _
      rfl ⟨rfl, rfl, ⟨le_rfl, fun _ => List.forall_mem_nil _, ?_, ?_⟩, ?_, ?_⟩
    · intro seed best
      cases best
      exact ⟨start ▸ moved.forward, fun marked => start ▸ moved.further (Grammar.not_mayBeEmpty_iff.1 marked)⟩
    · exact lower.same below
    · exact fun t there => (passes t (.of_back back there)).mono lt.le
    · exact fun t there => (fails t (back.trans there)).mono lt.le

/-- A ruleset that did not match is safe to leave. -/
theorem Calling.retFail (calling : Calling g p T n f rest s)
    (held : p.ops[Program.retFailAt]? = some .retFail) (back : Back s s') :
    Safe g p T n Program.retFailAt s' := by
  obtain ⟨frames, start, lined, passes, fails⟩ := calling
  obtain ⟨noted, rest', frames', below⟩ := back.uncons frames
  rw [frames] at lined
  obtain ⟨-, -, answered, lower⟩ := lined
  have leave : step p (Buffer.complete T) Program.retFailAt s' = s'.leaveFailed := by simp only [step, held]
  have agrees : Agrees g p (Buffer.complete T) Program.retFailAt s' := by
    refine ⟨fun found => ?_, fun {_ t} left marked => ?_⟩
    · cases held.symm.trans found
    obtain ⟨rfl, others⟩ := List.cons.inj (left.frames.symm.trans frames')
    have taken := leave.symm.trans left.taken
    rcases left.leaves with ret | ⟨-, some_⟩
    · cases held.symm.trans ret
    · obtain ⟨seed, best⟩ : ∃ seed, f.best = some seed := Option.isSome_iff_exists.1 some_
      simp only [State.leaveFailed, frames', best] at taken
      cases taken
      exact (answered seed best).2 marked
  refine .turn agrees fun m lt op' t taken => ?_
  have left := leave.symm.trans taken
  cases best : f.best with
  | none =>
      simp only [State.leaveFailed, frames', best] at left
      cases left
      have same : SameOpen { s with frames := rest }
          { s'.keepCaptures f.captureBase with frames := rest', pos := f.start } :=
        ⟨back.marks, back.captureStarts, back.loops, back.quiet, below⟩
      exact (fails _ ⟨same, start⟩).mono lt.le
  | some seed =>
      obtain ⟨forward, further⟩ := answered seed best
      simp only [State.leaveFailed, frames', best] at left
      cases left
      rw [start] at forward further
      have same : SameOpen { s with frames := rest } { s'.keepCaptures f.captureBase with
          frames := rest', pos := seed.stop, result := some seed.value } :=
        ⟨back.marks, back.captureStarts, back.loops, back.quiet, below⟩
      exact (passes _ ⟨same, forward, fun no => further (Grammar.not_mayBeEmpty_iff.2 no)⟩).mono lt.le

end

theorem Guards.rules {g : Grammar} {p : Program} {T : String} {N index : Nat} {rules : List Rule}
    (bodies : ∀ r ∈ rules, ∀ pass, Guards g p T N (Pattern.leadingCalls g.nullable r.patterns)
      (Pattern.someNullable g.nullable r.patterns) Back pass (Pattern.fragment r.patterns)) :
    Guards g p T N (rules.flatMap fun r => Pattern.leadingCalls g.nullable r.patterns)
      (rules.any fun r => Pattern.someNullable g.nullable r.patterns) Back Program.retAt
      (Program.rulesFragment index rules) := by
  induction rules generalizing index with
  | nil => exact .failing
  | cons r rest ih =>
      rw [List.flatMap_cons, List.any_cons]
      exact .orElse (.rule (bodies r List.mem_cons_self)) (ih fun r hr => bodies r (List.mem_cons_of_mem _ hr))

namespace AnnotatedGrammar

variable {a : AnnotatedGrammar}

/-- Every ruleset is safe to begin, by induction on how many ops may run. -/
theorem safe_entry (linked : a.Linked) (library : Library) (T : String) (n : Nat) :
    ∀ ruleset entry, (Program.ofGrammar a library).entries[ruleset]? = some entry →
      SafeEntry a.grammar (Program.ofGrammar a library) T n ruleset entry := by
  induction n using Nat.strong_induction_on with
  | _ n ih =>
      rintro _ entry found f rest s rfl calling
      have lt : f.ruleset < a.grammar.rulesets.length := by
        rw [← Program.size_entries a library]
        exact (Array.getElem?_eq_some_iff.1 found).1
      obtain ⟨entry', found', base, index, ops, rfl, -⟩ := Program.ofGrammar_stands a library lt
      cases found.symm.trans found'
      have isRuleset := List.getElem?_eq_getElem lt
      rw [Grammar.rulesAt, isRuleset] at ops ⊢
      have calls : ∀ ruleset < a.grammar.rulesets.length, ∀ pass,
          Guards a.grammar (Program.ofGrammar a library) T n [ruleset]
            (a.grammar.nullable[ruleset]?.getD false) Back pass (Fragment.call ruleset) :=
        fun ruleset _ pass => .call fun m lt entry found => ih m lt ruleset entry found
      have known : ∀ (id : Nat) (t : Terminal), a.terminals[id]? = some t →
          (Program.ofGrammar a library).terminals[id]? = some t :=
        fun id t known => (List.getElem?_toArray ..).trans known
      have bodies := fun r member =>
        Pattern.guards known calls r.patterns (linked.every _ (List.getElem_mem lt) r member)
      refine Guards.rules bodies n le_rfl base Program.retFailAt ops s ?_ ?_ ?_
      · refine calling.lined.of_begun calling.frames fun called member => ?_
        exact (Grammar.callsFirst_iff isRuleset).2 (List.mem_flatMap.1 member)
      · intro s' moved
        refine calling.ret (Program.ofGrammar_ret a library) (fun m lt entry found => ih m lt _ entry found)
          (moved.loose fun nothing => ?_)
        rw [Grammar.emptyMark, a.grammar.nullable_closed isRuleset nothing, Option.getD_some]
      · exact fun s' back => calling.retFail (Program.ofGrammar_retFail a library) back

/-- Every op that runs over a whole text agrees with what the grammar tells. -/
theorem agrees_of_path (linked : a.Linked) (library : Library) {T : String} {op : Nat} {s : State}
    (path : Reaches (Program.ofGrammar a library) T (Program.ofGrammar a library).root (a.first library) op s) :
    Agrees a.grammar (Program.ofGrammar a library) (Buffer.complete T) op s := by
  obtain ⟨acceptAt, root, accept, reject, call⟩ := Program.ofGrammar_last a library
  rw [root] at path
  refine path.agrees fun n => ?_
  have held : Holds (Program.ofGrammar a library).ops (acceptAt + 2)
      [.call a.entry acceptAt (acceptAt + 1)] := by
    intro i op found
    cases i with
    | zero => rwa [← Option.some_inj.1 found]
    | succ i => cases found
  have guards : Guards a.grammar (Program.ofGrammar a library) T n [a.entry] (a.grammar.emptyMark a.entry)
      Back acceptAt (Fragment.call a.entry) :=
    .call fun m _ entry found => safe_entry linked library T m a.entry entry found
  refine guards n le_rfl (acceptAt + 2) (acceptAt + 1) held (a.first library) trivial ?_ ?_
  · refine fun s' _ => .turn (.of_op accept trivial) fun m _ op' t taken => ?_
    cases (step_accept accept).symm.trans taken
  · refine fun s' _ => .turn (.of_op reject trivial) fun m _ op' t taken => ?_
    cases (step_reject reject).symm.trans taken

end AnnotatedGrammar

namespace Machine

/-- What leaves a ruleset reads no text. -/
theorem Returns.over {p : Program} {b : Buffer} {op : Nat} {s t : State} {f : Frame}
    (left : Returns p b op s f t) (b' : Buffer) : Returns p b' op s f t := by
  refine ⟨left.leaves, ?_, left.frames⟩
  rw [← left.taken]
  rcases left.leaves with found | ⟨found, -⟩ <;> simp only [step, found]

/-- In every state of every run: a ruleset that is called where it is under way already is warned
of, and its answer there ends further on if it is not marked nullable. A ruleset that is not
marked ends further on than it began when it matches. So without a warning of left recursion no
call finds its ruleset under way at its position. -/
theorem Reachable.seed_warned {g : Grammar} {callbacks : List String} {a : AnnotatedGrammar}
    (accepted : g.annotate? callbacks = .ok a) (library : Library) {b : Buffer} {s₀ s : State}
    {first n op : Nat} (reachable : Reachable (Program.ofGrammar a library) b s₀)
    (pending : s₀.pending = some first)
    (steps : Steps (Program.ofGrammar a library) b n first s₀.resumed op s) :
    (∀ ruleset pass fail f, (Program.ofGrammar a library).ops[op]? = some (.call ruleset pass fail) →
      s.frames.find? (fun f => f.isAt ruleset s.pos) = some f →
        (∃ rs, a.grammar.rulesets[ruleset]? = some rs ∧ Warning.ofLeftRecursion rs ∈ a.warnings) ∧
        ∀ seed, f.best = some seed → a.grammar.nullable[ruleset]? ≠ some true → s.pos < seed.stop) ∧
    (∀ f t, Returns (Program.ofGrammar a library) b op s f t →
      a.grammar.nullable[f.ruleset]? ≠ some true → f.start < t.pos) ∧
    ((∀ w ∈ a.warnings, w.kind ≠ .leftRecursion) → ∀ ruleset pass fail,
      (Program.ofGrammar a library).ops[op]? = some (.call ruleset pass fail) →
        s.frames.find? (fun f => f.isAt ruleset s.pos) = none) := by
  have linked := Grammar.annotate?_linked accepted
  obtain ⟨P, rests⟩ := reachable.rests linked
  have follows := (rests.goesOn first pending).steps linked steps
  have agrees := AnnotatedGrammar.agrees_of_path linked library (follows.path "" (fun _ => rfl) follows.fits_whole)
  have warned : ∀ ruleset pass fail f,
      (Program.ofGrammar a library).ops[op]? = some (.call ruleset pass fail) →
      s.frames.find? (fun f => f.isAt ruleset s.pos) = some f →
        ∃ rs, a.grammar.rulesets[ruleset]? = some rs ∧ Warning.ofLeftRecursion rs ∈ a.warnings :=
    fun ruleset pass fail f call under => Grammar.warned_of_callsFirst accepted (agrees.again call under).1
  refine ⟨fun ruleset pass fail f call under => ?_, fun f t left => ?_, fun none ruleset pass fail call => ?_⟩
  · exact ⟨warned ruleset pass fail f call under, (agrees.again call under).2⟩
  · exact agrees.returns (left.over _)
  · cases under : s.frames.find? fun f => f.isAt ruleset s.pos with
    | none => rfl
    | some f =>
        obtain ⟨rs, -, warning⟩ := warned ruleset pass fail f call under
        exact absurd rfl (none _ warning)

end Machine

/-- Signs in front of an `a`: `return` is a sign that may be left out and a `return`, or an `a`. -/
def Grammar.signs : Grammar :=
  Grammar.empty.addRuleset "return" [
    .ofPatterns [.ofTokens [(Token.literal "-").opt, .ref "return"]] none,
    .ofPatterns [.ofTokens [.literal "a"]] none]

/-- The only ruleset, with its annotations. -/
def Grammar.signsRuleset : Ruleset where
  name := "return"
  rules := [
    { patterns := [{ tokens := [{ matcher := .literal "-" (some 0), required := false, id := 4 },
        { matcher := .ref "return" (some 0), id := 5 }], id := 3 }], id := 2 },
    { patterns := [{ tokens := [{ matcher := .literal "a" (some 1), id := 8 }], id := 7 }], id := 6 }]
  id := 1

/-- Signs in front of an `a`, with annotations. -/
def Grammar.signsAnnotated : AnnotatedGrammar where
  grammar := { rulesets := [signsRuleset], lookup := [("return", 0)], maxId := 8 }
  terminals := [.literal "-", .literal "a"]
  entry := 0
  warnings := [.ofLeftRecursion signsRuleset]

theorem Grammar.signs_accepted : Grammar.signs.annotate? [] = .ok Grammar.signsAnnotated := by
  rfl

open Grammar in
/-- With no sign the call of `return` finds it under way. -/
theorem Machine.Reachable.seed_warned_without_sign : ∃ b s f, (Buffer.empty 0).append "a" = .ok b ∧
    Steps (Program.ofGrammar signsAnnotated {}) b 3 12 (State.start (Program.ofGrammar signsAnnotated {})).resumed
      7 s ∧
    (Program.ofGrammar signsAnnotated {}).ops[7]? = some (.call 0 6 5) ∧
    s.frames.find? (fun f => f.isAt 0 s.pos) = some f ∧
    ∃ rs, signsAnnotated.grammar.rulesets[0]? = some rs ∧ Warning.ofLeftRecursion rs ∈ signsAnnotated.warnings := by
  let p := Program.ofGrammar signsAnnotated {}
  let b : Buffer := { minRetained := 0, chunks := [⟨0, "a"⟩], length := 1 }
  have appended : (Buffer.empty 0).append "a" = .ok b := by decide
  let called : State := { State.start p with
    pending := none, frames := [{ ruleset := 0, pass := 10, fail := 11, start := 0, captureBase := 0 }] }
  have calls : step p b 12 (State.start p).resumed = .next 9 called := rfl
  have marked : step p b 9 called = .next 8 called.mark := rfl
  have unsigned : step p b 8 called.mark = .next 7 (called.mark.noteFailure 0) := by
    have no : (Terminal.literal "-").matchAt b called.mark.pos = .ok none := by decide +kernel
    have terminals : p.terminals = #[.literal "-", .literal "a"] := rfl
    show State.testTerminal p b called.mark 8 0 7 7 = _
    simp [State.testTerminal, terminals, no]
  have reachable : Reachable p b (State.start p) := .append (.start 0) appended (by decide)
  have steps : Steps p b 3 12 (State.start p).resumed 7 (called.mark.noteFailure 0) :=
    .more calls (.more marked (.more unsigned (.stay _ _)))
  have call : p.ops[7]? = some (.call 0 6 5) := rfl
  obtain ⟨f, under⟩ : ∃ f, (called.mark.noteFailure 0).frames.find?
      (fun f => f.isAt 0 (called.mark.noteFailure 0).pos) = some f := ⟨_, rfl⟩
  exact ⟨b, _, f, appended, steps, call, under,
    ((seed_warned signs_accepted {} reachable rfl steps).1 0 6 5 f call under).1⟩

end PegFlow
