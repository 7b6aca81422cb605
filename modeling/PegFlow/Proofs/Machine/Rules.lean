/-
# PegFlow.Proofs.Machine.Rules -- rules, calls and whole grammars

A rule matches its patterns and works out its output from the captures since the call
began (`Means.rule`). By induction on how deep calls may be, every call does what it means
(`Grammar.call_means`), and so does the whole program (`AnnotatedGrammar.ends`).
-/
import PegFlow.Proofs.Machine.Call
import PegFlow.Proofs.Machine.Tree
import PegFlow.Proofs.Program.Layout

namespace PegFlow

set_option autoImplicit false

open Text Machine

section

variable {p : Program} {T : String} {n depth : Nat}

theorem Begun.next {s s' : State} {again : List (Nat × Nat)} (begun : Begun T n depth s)
    (lost : Failed (s.noted again) s') : Begun T n depth s' := by
  obtain ⟨ready, f, rest, frames, start, base⟩ := begun
  have frames' : s'.frames = s.frames.map (Frame.noted again) := lost.kept.frames
  rw [frames, List.map_cons] at frames'
  exact ⟨lost.ready ready, _, _, frames', start.trans lost.pos.symm, base.trans lost.size_eq.symm⟩

variable {call : Nat → Parse Value} {r : Rule} {index : Nat} {f : Fragment}

/-- What an output op does with the captures since its call began. -/
theorem giveOutput_eq {s : State} {frame : Frame} {rest : List Frame} {captures : List Capture}
    (frames : s.frames = frame :: rest) (output : p.rules[index]? = some (Program.outputOf r))
    (base : frame.captureBase ≤ s.captures.size)
    (taken : (s.captures.extract frame.captureBase s.captures.size).toList = captures) (next : Nat) :
    State.giveOutput p (Buffer.complete T) s index next =
      match r.valueOf p.library T frame.start s.pos captures with
      | .ok v => .next next { s.keepCaptures frame.captureBase with result := some v }
      | .error e => .fault e (s.keepCaptures frame.captureBase) := by
  simp only [State.giveOutput, frames, output, if_neg (Nat.not_lt.2 base), taken, Program.outputOf]
  rfl

theorem Means.rule (body : Does p T n depth Failed f (Pattern.parse T call r.patterns))
    (output : p.rules[index]? = some (Program.outputOf r)) :
    Means p T (Begun T n depth) (Returned T) Failed Program.retAt (f.rule index Program.retAt)
      (r.parse p.library T call) := by
  intro base fail held s begun
  have here : p.ops[base]? = some (.output index Program.retAt) := held.head
  obtain ⟨ready, frame, rest, frames, start, first⟩ := begun
  refine (body base (base + 1) fail held.tail s ready).either ?_ fun _ _ lost => .of_fail lost
  intro again stop captures s' done
  have frames' : s'.frames = s.frames.map (Frame.noted again) := done.kept.frames
  rw [frames, List.map_cons] at frames'
  have recorded : s'.captures.toList = s.captures.toList ++ captures := done.captures
  have size := congrArg List.length recorded
  rw [List.length_append, Array.length_toList, Array.length_toList] at size
  have forward : s.pos ≤ stop := done.forward
  have pos : s'.pos = stop := done.pos
  have below : (frame.noted again).captureBase ≤ s'.captures.size := by
    show frame.captureBase ≤ s'.captures.size
    omega
  have range : InRange p T base s' := by
    simp only [InRange, here]
    refine ⟨(Array.getElem?_eq_some_iff.1 output).1, _, _, frames', below, ?_, ?_, ?_⟩
    · exact start ▸ pos ▸ forward
    · exact start ▸ ready.boundary
    · exact pos ▸ done.boundary
  have taken : (s'.captures.extract frame.captureBase s'.captures.size).toList = captures := by
    rw [Array.toList_extract, recorded, first, List.extract_eq_take_drop, List.drop_left' (by simp)]
    exact List.take_of_length_le (by omega)
  have given : step p (Buffer.complete T) base s' =
      match r.valueOf p.library T s.pos stop captures with
      | .ok v => .next Program.retAt { s'.keepCaptures frame.captureBase with result := some v }
      | .error e => .fault e (s'.keepCaptures frame.captureBase) := by
    have eq := giveOutput_eq (T := T) frames' output below taken Program.retAt
    have start' : (frame.noted again).start = s.pos := start
    rw [pos, start'] at eq
    simp only [step, here]
    exact eq
  cases value : r.valueOf p.library T s.pos stop captures with
  | error e =>
      rw [value] at given
      exact Or.inr (Faults.one range given)
  | ok v =>
      rw [value] at given
      refine (Ends.of_pass ?_).after (.one range given)
      refine ⟨⟨⟨done.kept.marks, done.kept.captureStarts, done.kept.loops, done.kept.quiet,
        done.kept.frames⟩, pos, forward, done.boundary, ?_⟩, rfl⟩
      show (s'.keepCaptures frame.captureBase).captures.toList = s.captures.toList ++ []
      rw [first, List.append_nil]
      exact State.captures_keepCaptures ⟨captures, recorded.symm⟩

theorem Means.rules {rules : List Rule} (outputs : Holds p.rules index (rules.map Program.outputOf))
    (bodies : ∀ r ∈ rules,
      Does p T n depth Failed (Pattern.fragment r.patterns) (Pattern.parse T call r.patterns)) :
    Means p T (Begun T n depth) (Returned T) Failed Program.retAt (Program.rulesFragment index rules)
      (Rule.parseList p.library T call rules) := by
  induction rules generalizing index with
  | nil => exact .fail
  | cons r rest ih =>
      rw [List.map_cons] at outputs
      refine (Means.rule (bodies r List.mem_cons_self) outputs.head).orElse
        (ih outputs.tail fun r hr => bodies r (List.mem_cons_of_mem _ hr)) ?_ ?_
      · exact fun _ _ _ begun lost => begun.next lost
      · exact fun _ _ _ _ _ lost done => ⟨.of_failed lost done.1, done.2⟩

end

namespace AnnotatedGrammar

variable {g : AnnotatedGrammar} {library : Library} {T : String}

/-- Every call does what it means, by induction on how deep calls may be. So it does in a
program that has more ops behind those of the grammar. -/
theorem call_means_of_extends (linked : g.Linked) (fits : T.utf8ByteSize ≤ Buffer.maxOffset)
    {q : Program} (extended : q.Extends (Program.ofGrammar g library)) (depth : Nat) :
    ∀ ruleset < g.grammar.rulesets.length, ∀ pass,
      Means q T (Ready T g.grammar.rulesets.length depth) (Returned T) Failed pass
        (Fragment.call ruleset) (g.grammar.call library T depth ruleset) := by
  induction depth with
  | zero =>
      intro ruleset lt pass base fail held s ready
      cases found : s.frames.find? fun f => f.isAt ruleset s.pos with
      | none =>
          have room := ready.depth_pos lt (State.notUnderWay_of_find? found)
          omega
      | some f =>
          have below : ruleset < q.entries.size := by
            rwa [extended.entries, Program.size_entries]
          exact Ends.reenter held.head below ready found
  | succ depth ih =>
      intro ruleset lt pass
      obtain ⟨entry, found, base, index, ops, rfl, outputs⟩ := Program.ofGrammar_stands g library lt
      have bodies : ∀ r ∈ g.grammar.rulesAt ruleset,
          Does q T g.grammar.rulesets.length depth Failed (Pattern.fragment r.patterns)
            (Pattern.parse T (g.grammar.call library T depth) r.patterns) := by
        intro r member
        rw [Grammar.rulesAt, List.getElem?_eq_getElem lt] at member
        have every := linked.every _ (List.getElem_mem lt) r member
        refine Pattern.does fits (fun id t known => ?_) ih _ every
        rw [extended.terminals]
        exact (List.getElem?_toArray ..).trans known
      rw [← extended.rules] at outputs
      have means := Means.rules outputs bodies
      have serves : Serves q T g.grammar.rulesets.length depth ruleset _
          (Rule.parseList q.library T (g.grammar.call library T depth) (g.grammar.rulesAt ruleset)) :=
        ⟨extended.entries ▸ found, extended.ops _ _ (Program.ofGrammar_ret g library),
          extended.ops _ _ (Program.ofGrammar_retFail g library),
          fun s begun => means base Program.retFailAt (extended.holds ops) s begun⟩
      have called := Means.call serves lt pass
      rwa [extended.library] at called

theorem call_means (linked : g.Linked) (fits : T.utf8ByteSize ≤ Buffer.maxOffset) (depth : Nat) :
    ∀ ruleset < g.grammar.rulesets.length, ∀ pass,
      Means (Program.ofGrammar g library) T (Ready T g.grammar.rulesets.length depth) (Returned T)
        Failed pass (Fragment.call ruleset) (g.grammar.call library T depth ruleset) :=
  call_means_of_extends linked fits (.refl _) depth

/-- The state in which the first op runs. -/
def first (g : AnnotatedGrammar) (library : Library) : State :=
  { State.start (Program.ofGrammar g library) with pending := none, status := .running }

/-- The whole program does what the grammar means. -/
theorem ends (library : Library) (linked : g.Linked) (fits : T.utf8ByteSize ≤ Buffer.maxOffset) :
    ∃ acceptAt, (Program.ofGrammar g library).ops[acceptAt]? = some .accept ∧
      (Program.ofGrammar g library).ops[acceptAt + 1]? = some .reject ∧
      Ends (Program.ofGrammar g library) T (Returned T) Failed acceptAt (acceptAt + 1)
        (Program.ofGrammar g library).root (g.first library) (g.first library)
        (g.meaning library T) := by
  obtain ⟨acceptAt, root, accept, reject, call⟩ := Program.ofGrammar_last g library
  refine ⟨acceptAt, accept, reject, ?_⟩
  have ready : Ready T g.grammar.rulesets.length
      (g.grammar.rulesets.length * (T.utf8ByteSize + 1)) (g.first library) :=
    ⟨isBoundary_zero T, List.nodup_nil, by simp [first, State.start], by simp [first, State.start],
      by simp [first, State.start]⟩
  have held : Holds (Program.ofGrammar g library).ops (acceptAt + 2)
      [.call g.entry acceptAt (acceptAt + 1)] := by
    intro i op found
    cases i with
    | zero => rwa [← Option.some_inj.1 found]
    | succ i => cases found
  rw [root]
  exact call_means linked fits _ g.entry linked.entry acceptAt (acceptAt + 2) (acceptAt + 1) held
    (g.first library) ready

end AnnotatedGrammar

end PegFlow
