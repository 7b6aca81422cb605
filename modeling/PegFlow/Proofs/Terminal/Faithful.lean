/-
# PegFlow.Proofs.Terminal.Faithful -- terminals match what is written

`Terminal.Form.Describes` says which texts a form stands for, and the terminal of a form matches
these and no others, in every buffer and wherever its chunks were cut
(`Terminal.Form.matchAt_iff`). Whatever is asked of a table, and in whatever order, and whatever
grammar is annotated, equal forms have one id, the ids are dense, and an id gets the terminal of
the form it was given for (`TerminalTable.interning_faithful`).
-/
import PegFlow.Proofs.CharClass.Table
import PegFlow.Proofs.Grammar.Interned
import PegFlow.Proofs.Meaning.Terminal

namespace PegFlow

set_option autoImplicit false

open Text

/-! ## What a form describes -/

/-- A text is the beginning of another one when its octets are. -/
theorem Text.octets_prefix_iff {s v : String} : octets s <+: octets v ↔ ∃ w, v = s ++ w := by
  constructor
  · intro starts
    obtain ⟨a, w, rfl, size⟩ := isBoundary_of_prefix starts
    have length : (octets s).length = (octets a).length := by rw [length_octets, length_octets, size]
    rw [octets_append] at starts
    have inside := List.prefix_of_prefix_length_le starts (List.prefix_append _ _) length.le
    have same := inside.eq_of_length length
    obtain rfl : s = a := String.toByteArray_inj.1 (ByteArray.ext (Array.toList_inj.1 same))
    exact ⟨w, rfl⟩
  · rintro ⟨w, rfl⟩
    rw [octets_append]
    exact List.prefix_append _ _

namespace Terminal

/-- The text is one of those that are written so. -/
def Form.Describes : Form → String → Prop
  | .literal text, s => s = text
  | .charClass spec, s => ∃ c, s = String.singleton c ∧
      ((∃ r ∈ spec.ranges, r.first ≤ c ∧ c ≤ r.last) ↔ spec.negated = false)
  | .any, s => ∃ c, s = String.singleton c

variable {f : Form} {t : Terminal} {n : Nat}

/-- A class accepts the characters of its ranges, or the others when it is negated. -/
theorem accepts_iff {spec : ClassSpec} (own : ofClass? spec = .ok t) (c : Char) :
    t.accepts c = true ↔ ((∃ r ∈ spec.ranges, r.first ≤ c ∧ c ≤ r.last) ↔ spec.negated = false) := by
  obtain ⟨table, compiled, rfl⟩ := ofClass?_eq_ok own
  have ordered := CharClass.ordered_of_compile? compiled
  cases (CharClass.compile?_of_ordered ordered).symm.trans compiled
  rw [accepts, CharClass.contains_of_ordered ordered spec.negated c]
  cases spec.negated <;> simp

/-- What a terminal other than a literal matches is one character that it accepts. -/
theorem sizeAt_char_iff (char : ∀ text, t ≠ .literal text) (u v : String) :
    t.sizeAt (u ++ v) u.utf8ByteSize = some n ↔
      ∃ c w, v = String.singleton c ++ w ∧ t.accepts c = true ∧ charSize c = n := by
  rw [sizeAt_of_not_literal char, charAt?_cut, Option.bind_eq_some_iff]
  refine exists_congr fun c => ?_
  constructor
  · rintro ⟨first, taken⟩
    split at taken
    · rename_i accepts
      cases taken
      obtain ⟨rest, chars⟩ := List.head?_eq_some_iff.1 first
      refine ⟨String.ofList rest, ?_, accepts, rfl⟩
      rw [← String.toList_inj]
      simpa using chars
    · cases taken
  · rintro ⟨w, rfl, accepts, rfl⟩
    simp [accepts]

theorem Form.sizeAt_iff (own : f.terminal? = .ok t) (u v : String) :
    t.sizeAt (u ++ v) u.utf8ByteSize = some n ↔ ∃ s w, v = s ++ w ∧ f.Describes s ∧ s.utf8ByteSize = n := by
  cases f with
  | literal text =>
      cases own
      rw [sizeAt, octets_append, List.drop_left' (length_octets u)]
      constructor
      · intro found
        split at found
        · rename_i starts
          obtain ⟨w, rfl⟩ := octets_prefix_iff.1 starts
          cases found
          exact ⟨text, w, rfl, rfl, rfl⟩
        · cases found
      · rintro ⟨s, w, rfl, rfl, rfl⟩
        rw [if_pos (octets_prefix_iff.2 ⟨w, rfl⟩)]
  | charClass spec =>
      have char : ∀ text, t ≠ .literal text := by
        obtain ⟨table, -, rfl⟩ := ofClass?_eq_ok own
        intro text same
        cases same
      rw [sizeAt_char_iff char]
      constructor
      · rintro ⟨c, w, rfl, accepts, rfl⟩
        exact ⟨String.singleton c, w, rfl, ⟨c, rfl, (accepts_iff own c).1 accepts⟩, String.utf8ByteSize_singleton⟩
      · rintro ⟨s, w, rfl, ⟨c, rfl, held⟩, rfl⟩
        exact ⟨c, w, rfl, (accepts_iff own c).2 held, String.utf8ByteSize_singleton.symm⟩
  | any =>
      cases own
      have char : ∀ text, Terminal.any ≠ .literal text := by
        intro text same
        cases same
      rw [sizeAt_char_iff char]
      constructor
      · rintro ⟨c, w, rfl, -, rfl⟩
        exact ⟨String.singleton c, w, rfl, ⟨c, rfl⟩, String.utf8ByteSize_singleton⟩
      · rintro ⟨s, w, rfl, ⟨c, rfl⟩, rfl⟩
        exact ⟨c, w, rfl, rfl, String.utf8ByteSize_singleton.symm⟩

/-- A buffer lets a terminal match exactly when the text so far does, also when it may grow. -/
theorem matchAt_eq_some_iff {b : Buffer} {T : String} (shows : b.Shows T) {p : Nat} (low : b.start ≤ p)
    (boundary : IsBoundary T p) (t : Terminal) : t.matchAt b p = .ok (some n) ↔ t.sizeAt T p = some n := by
  by_cases literal : ∃ text, t = .literal text
  · obtain ⟨text, rfl⟩ := literal
    rw [matchAt_literal, shows.startsWith_eq low, sizeAt]
    by_cases starts : octets text <+: (octets T).drop p
    · rw [if_pos starts, matchOctets_eq_nil_iff.2 starts]
      simp [Except.map]
    · rw [if_neg starts]
      have left := mt matchOctets_eq_nil_iff.1 starts
      split
      · simp [Except.map]
      · contradiction
      · cases b.closed <;> simp [Except.map]
  · have char : ∀ text, t ≠ .literal text := fun text same => literal ⟨text, same⟩
    rw [matchAt_of_not_literal char, sizeAt_of_not_literal char, shows.charAt_eq low]
    obtain ⟨u, v, rfl, rfl⟩ := boundary
    rw [charAt?_cut]
    by_cases ends : v = ""
    · subst ends
      simp [Except.map]
    · have inside : ¬ (u ++ v).utf8ByteSize ≤ u.utf8ByteSize := by
        have filled := mt String.utf8ByteSize_eq_zero_iff.1 ends
        rw [String.utf8ByteSize_append]
        omega
      rw [if_neg inside]
      cases v.toList.head? <;> simp [Except.map]

/-- The terminal of a form matches what the form describes, wherever the chunks were cut. -/
theorem Form.matchAt_iff (own : f.terminal? = .ok t) {b : Buffer} {u v : String} (shows : b.Shows (u ++ v))
    (low : b.start ≤ u.utf8ByteSize) : t.matchAt b u.utf8ByteSize = .ok (some n) ↔
      ∃ s w, v = s ++ w ∧ f.Describes s ∧ s.utf8ByteSize = n := by
  rw [matchAt_eq_some_iff shows low ⟨u, v, rfl, rfl⟩, Form.sizeAt_iff own]

end Terminal

/-! ## Ids -/

namespace Grammar

open Terminal

variable {g : Grammar} {callbacks : List String} {a : AnnotatedGrammar}

/-- The ids at the tokens of an accepted grammar were given for their forms. -/
theorem tokens_interned (accepted : g.annotate? callbacks = .ok a) :
    Interned (fun f id => ∃ token ∈ a.grammar.tokens, token.matcher.form? = some f ∧
      token.matcher.terminalId? = some id) a.terminals.length (a.terminals[·]?) := by
  obtain ⟨table, forms, holds, terminals, filed, written⟩ := terminals_held accepted
  have filed' := every_iff_token.1 filed
  rw [terminals]
  apply holds.interned
  · rintro f id ⟨token, inside, is, has⟩
    obtain ⟨id', has', here⟩ := filed' token inside (Matcher.leaf_of_form is) f is
    cases has.symm.trans has'
    exact here
  · intro f member
    obtain ⟨token, inside, is⟩ := written f member
    obtain ⟨id, has, -⟩ := filed' token inside (Matcher.leaf_of_form is) f is
    exact ⟨id, token, inside, is, has⟩

/-- A token has the id of the terminal of its form. -/
theorem exists_terminal (accepted : g.annotate? callbacks = .ok a) {token : Token} (inside : token ∈ a.grammar.tokens)
    {f : Form} (is : token.matcher.form? = some f) :
    ∃ id t, token.matcher.terminalId? = some id ∧ a.terminals[id]? = some t ∧ f.terminal? = .ok t := by
  obtain ⟨table, forms, holds, terminals, filed, -⟩ := terminals_held accepted
  obtain ⟨id, has, here⟩ := every_iff_token.1 filed token inside (Matcher.leaf_of_form is) f is
  obtain ⟨t, own, got⟩ := holds.get?_eq here
  rw [terminals]
  exact ⟨id, t, has, got, own⟩

/-- A digit, or else any character, in brackets, or brackets with nothing between them. -/
def bracketed : Grammar :=
  empty.addRuleset "return" [.ofPatterns [.ofTokens [.literal "(",
    .group [.ofTokens [.charClass "0-9"], .ofTokens [.any]], .literal ")"], .ofTokens [.literal "(", .literal ")"]]
    none]

end Grammar

namespace TerminalTable

open Terminal

/-- A table that holds more forms behind its own has its terminals where they were. -/
theorem Holds.terminals_grow {table table' : TerminalTable} {forms forms' : List Form} (holds : table.Holds forms)
    (holds' : table'.Holds forms') (grown : forms <+: forms') : table.terminals <+: table'.terminals := by
  have built := grown.map Form.terminal?
  rw [holds.built, holds'.built] at built
  exact (List.prefix_map_iff_of_injective fun _ _ same => Except.ok.inj same).1 built

/-- Whatever is asked of a table, one after the other, equal forms are given equal ids and
different ones different ids, all ids from zero on are given, and an id gets the terminal of the
form it was given for. Later requests change no id and no terminal. Refused are the classes without
a terminal, and nothing changes then. Likewise the terminals of an accepted grammar have their
ids, and the terminal that a token has the id of matches what the token's form describes. -/
theorem interning_faithful :
    (∀ before after : List Form,
      let early := empty.requestAll before
      let late := empty.requestAll (before ++ after)
      late.1.map Prod.fst = before ++ after ∧
      Interned (fun f id => (f, .ok id) ∈ late.1) late.2.size late.2.get? ∧
      (early.1 <+: late.1 ∧ early.2.terminals <+: late.2.terminals) ∧
      (∀ f r, (f, .error r) ∈ late.1 → f.terminal? = .error r) ∧
      ∀ f r, (late.2.request f).1 = .error r → (late.2.request f).2 = late.2) ∧
    ∀ (g : Grammar) (callbacks : List String) (a : AnnotatedGrammar), g.annotate? callbacks = .ok a →
      Interned (fun f id => ∃ token ∈ a.grammar.tokens, token.matcher.form? = some f ∧
        token.matcher.terminalId? = some id) a.terminals.length (a.terminals[·]?) ∧
      ∀ token ∈ a.grammar.tokens, ∀ f, token.matcher.form? = some f →
        ∃ id t, token.matcher.terminalId? = some id ∧ a.terminals[id]? = some t ∧
          ∀ (b : Buffer) (u v : String) (n : Nat), b.Shows (u ++ v) → b.start ≤ u.utf8ByteSize →
            (t.matchAt b u.utf8ByteSize = .ok (some n) ↔
              ∃ s w, v = s ++ w ∧ f.Describes s ∧ s.utf8ByteSize = n) := by
  constructor
  · intro before after early late
    have holds := holds_empty
    obtain ⟨between, -, held, -⟩ := holds.requestAll before
    obtain ⟨forms, -, held', answers, origin, errors⟩ := holds.requestAll (before ++ after)
    obtain ⟨forms', grown, held'', -⟩ := held.requestAll after
    have split : late = (early.1 ++ (early.2.requestAll after).1, (early.2.requestAll after).2) :=
      requestAll_append _ before after
    refine ⟨requestAll_requests _ _, held'.interned answers ?_, ⟨?_, ?_⟩, errors, ?_⟩
    · intro f member
      rcases origin f member with old | given
      · cases old
      · exact given
    · rw [split]
      exact List.prefix_append _ _
    · rw [split]
      exact held.terminals_grow held'' grown
    · intro f r refused
      exact request_of_error refused
  · intro g callbacks a accepted
    refine ⟨Grammar.tokens_interned accepted, ?_⟩
    intro token inside f is
    obtain ⟨id, t, has, got, own⟩ := Grammar.exists_terminal accepted inside is
    refine ⟨id, t, has, got, ?_⟩
    intro b u v n shows low
    exact Form.matchAt_iff own shows low

/-- The digit of a text in brackets is matched by the terminal that the token of the digit has, and
a class that is refused is not put in a table. -/
theorem interning_faithful_of_bracketed : ∃ a, Grammar.bracketed.annotate? [] = .ok a ∧
    a.terminals.length = 4 ∧
    (∃ token ∈ a.grammar.tokens, token.matcher.form? = some (.charClass (ClassSpec.ofText "0-9")) ∧
      ∃ id t, token.matcher.terminalId? = some id ∧ a.terminals[id]? = some t ∧
        t.matchAt (Buffer.complete "(7)") 1 = .ok (some 1)) ∧
    Interned (fun f id => ∃ token ∈ a.grammar.tokens, token.matcher.form? = some f ∧
      token.matcher.terminalId? = some id) a.terminals.length (a.terminals[·]?) ∧
    ((empty.requestAll [.any]).2.request (.charClass ⟨[⟨'z', 'a'⟩], false⟩)).1 = .error ⟨'z', 'a'⟩ ∧
    ((empty.requestAll [.any]).2.request (.charClass ⟨[⟨'z', 'a'⟩], false⟩)).2 = (empty.requestAll [.any]).2 := by
  obtain ⟨a, accepted⟩ : ∃ a, Grammar.bracketed.annotate? [] = .ok a := Except.eq_ok_of_isSome (by decide +kernel)
  have found : (Grammar.bracketed.annotate? []).toOption.any (fun a => decide (a.terminals.length = 4) &&
      a.grammar.tokens.any fun t => t.matcher.form? == some (.charClass (ClassSpec.ofText "0-9"))) = true := by
    decide +kernel
  rw [accepted, Except.toOption, Option.any_some, Bool.and_eq_true, decide_eq_true_iff, List.any_eq_true] at found
  obtain ⟨four, token, inside, same⟩ := found
  have is := beq_iff_eq.1 same
  obtain ⟨interned, terminals⟩ := interning_faithful.2 _ _ a accepted
  obtain ⟨id, t, has, got, matched⟩ := terminals token inside _ is
  have shows : (Buffer.complete "(7)").Shows ("(" ++ "7)") := Buffer.shows_complete "(7)"
  have low : (Buffer.complete "(7)").start ≤ "(".utf8ByteSize := by
    rw [Buffer.complete_start]
    exact Nat.zero_le _
  have refused : ((empty.requestAll [.any]).2.request (.charClass ⟨[⟨'z', 'a'⟩], false⟩)).1 = .error ⟨'z', 'a'⟩ :=
    rfl
  refine ⟨a, accepted, four, ⟨token, inside, is, id, t, has, got, ?_⟩, interned, refused, ?_⟩
  · exact (matched _ "(" "7)" 1 shows low).2 ⟨"7", ")", rfl, ⟨'7', rfl, by decide +kernel⟩, rfl⟩
  · exact (interning_faithful.1 [.any] []).2.2.2.2 _ _ refused

end TerminalTable

end PegFlow
