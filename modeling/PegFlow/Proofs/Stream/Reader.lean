/-
# PegFlow.Proofs.Stream.Reader -- octets parse as the text they spell

Reads cut octets anywhere, inside characters too. Of every read the whole characters are
written to the stream, and what is left waits for the next one, so reads that bring the
octets of a text are writes of pieces of that text (`Parser.feed_of_octets`). The parse
then depends on the octets only, not on the reads; and octets that are not those of a text
never give a value (`Parser.read_agrees`).
-/
import PegFlow.Proofs.Stream.Agreement
import PegFlow.Proofs.Text.Utf8
import PegFlow.Reader

namespace PegFlow

set_option autoImplicit false

open Text Machine

namespace Read

/-- The octets of a read. -/
def brought : Read → List UInt8
  | .octets bs => bs
  | _ => []

/-- The octets of reads, in order. -/
def joined (reads : List Read) : List UInt8 := reads.flatMap brought

/-- The read is neither the end nor a failure: it brings octets or was interrupted. -/
def Arrives : Read → Prop
  | .octets bs => bs ≠ []
  | .interrupted => True
  | .failed _ => False

@[simp]
theorem joined_nil : joined [] = [] := rfl

@[simp]
theorem joined_cons (r : Read) (rest : List Read) : joined (r :: rest) = r.brought ++ joined rest :=
  List.flatMap_cons ..

theorem joined_append (reads rest : List Read) : joined (reads ++ rest) = joined reads ++ joined rest :=
  List.flatMap_append

theorem joined_cut (limit fuel : Nat) (bs : List UInt8) : joined (cut limit fuel bs) = bs := by
  induction fuel generalizing bs with
  | zero => simp [cut, brought]
  | succ fuel ih =>
      rw [cut]
      split
      · simp [brought]
      · rw [joined_cons, ih, brought, List.take_append_drop]

theorem arrives_of_mem_cut {limit fuel : Nat} {bs : List UInt8} (some : bs ≠ []) (positive : 0 < limit) :
    ∀ r ∈ cut limit fuel bs, r.Arrives := by
  induction fuel generalizing bs with
  | zero => simpa [cut, Arrives] using some
  | succ fuel ih =>
      rw [cut]
      split
      · simpa [Arrives] using some
      · rename_i long
        have more : bs.drop limit ≠ [] := by simpa using long
        have piece : bs.take limit ≠ [] := by simp [some]; omega
        exact List.forall_mem_cons.2 ⟨piece, ih more⟩

/-- A window changes neither the octets of reads nor that all of them arrive. -/
theorem joined_limited (limit : Nat) (reads : List Read) : joined (limited limit reads) = joined reads := by
  induction reads with
  | nil => rfl
  | cons r rest ih =>
      rw [limited, List.flatMap_cons, joined_append, ← limited, ih, joined_cons]
      cases r <;> simp [brought, joined_cut]

theorem arrives_of_mem_limited {limit : Nat} {reads : List Read} (positive : 0 < limit)
    (arrive : ∀ r ∈ reads, r.Arrives) : ∀ r ∈ limited limit reads, r.Arrives := by
  intro r mem
  obtain ⟨whole, mem, part⟩ := List.mem_flatMap.1 mem
  have arrives := arrive whole mem
  cases whole with
  | octets bs => exact arrives_of_mem_cut arrives positive r part
  | interrupted => exact List.mem_singleton.1 part ▸ arrives
  | failed message => exact arrives.elim

end Read

namespace Parser

variable {s : Stream} {carry bs left : List UInt8} {cs : List Char} {e : Utf8.Ending} {rest : List Read}

/-- The octets that were read are those of the text. -/
theorem read_size (read : Utf8.decode bs = (cs, left, e)) :
    bs.length - left.length = (String.ofList cs).utf8ByteSize := by
  rw [(Utf8.decode_eq read).1, List.length_append, length_octets, Nat.add_sub_cancel]

/-- A read with whole characters is a write of them; what is left is carried over. -/
theorem feed_octets (arrives : bs ≠ []) (read : Utf8.decode (carry ++ bs) = (cs, left, e))
    (wellFormed : ∀ n, e ≠ .invalid n) : feed s carry (.octets bs :: rest) =
      if cs = [] then feed s left rest
      else match s.write (String.ofList cs) with
        | (s, .ok _) => feed s left rest
        | (_, .error e) => .error e := by
  have none : (String.ofList cs).utf8ByteSize = 0 ↔ cs = [] := by
    rw [String.utf8ByteSize_eq_zero_iff, ← String.toList_inj]
    simp
  cases bs with
  | nil => exact (arrives rfl).elim
  | cons b bs =>
      cases e with
      | invalid n => exact (wellFormed n rfl).elim
      | complete | cut =>
          rcases written : s.write (String.ofList cs) with ⟨s', answer⟩
          cases answer <;> simp only [feed, read, read_size read, none, written]

/-- Malformed octets end the parse. -/
theorem feed_invalid (arrives : bs ≠ []) {n : Nat}
    (read : Utf8.decode (carry ++ bs) = (cs, left, .invalid n)) :
    feed s carry (.octets bs :: rest) =
      .error (s.errorAt (.inputOutput (invalidOctets n (String.ofList cs).utf8ByteSize))
        (s.buffer.length + (String.ofList cs).utf8ByteSize)) := by
  cases bs with
  | nil => exact (arrives rfl).elim
  | cons b bs =>
      simp only [feed, read, read_size read]
      rfl

/-- Reads of the octets of a text are writes of pieces of it, by induction on the reads: what
is carried over is the beginning of a character. -/
theorem feed_of_octets {reads : List Read} (arrive : ∀ r ∈ reads, r.Arrives) {T : String}
    (spells : carry ++ Read.joined reads = octets T) (begun : Utf8.decode carry = ([], carry, e)) :
    ∃ pieces, String.join pieces = T ∧ feed s carry reads = s.feed pieces := by
  induction reads generalizing s carry T e with
  | nil =>
      rw [Read.joined_nil, List.append_nil] at spells
      rw [spells, Utf8.decode_octets] at begun
      simp only [Prod.mk.injEq, String.toList_eq_nil_iff] at begun
      obtain ⟨rfl, none, -⟩ := begun
      exact ⟨[], rfl, by rw [spells, ← none]; rfl⟩
  | cons r rest ih =>
      obtain ⟨arrives, later⟩ := List.forall_mem_cons.1 arrive
      cases r with
      | interrupted => exact ih later spells begun
      | failed message => exact arrives.elim
      | octets bs =>
          obtain ⟨cs, left, e', read⟩ : ∃ cs left e', Utf8.decode (carry ++ bs) = (cs, left, e') :=
            ⟨_, _, _, rfl⟩
          rw [Read.joined_cons, Read.brought, ← List.append_assoc] at spells
          have wellFormed (n : Nat) : e' ≠ .invalid n := by
            rintro rfl
            exact Utf8.decode_ne_invalid ⟨_, spells⟩ read
          obtain ⟨parts, stops⟩ := Utf8.decode_eq read
          rw [parts, List.append_assoc] at spells
          obtain ⟨T', whole⟩ := Utf8.octets_isPrefix_iff.1 ⟨_, spells⟩
          rw [Utf8.readable_octets] at whole
          rw [whole, octets_append, List.append_cancel_left_eq] at spells
          rw [feed_octets arrives read wellFormed]
          split
          · rename_i none
            subst none
            rw [whole, String.ofList_nil, String.empty_append]
            exact ih later spells (Utf8.decode_of_error stops)
          · cases written : s.write (String.ofList cs) with
            | mk s' answer =>
                obtain ⟨pieces, joins, feeds⟩ := ih (s := s') later spells (Utf8.decode_of_error stops)
                refine ⟨String.ofList cs :: pieces, by rw [String.join_cons, joins, whole], ?_⟩
                rw [Stream.feed, written]
                cases answer with
                | error e => rfl
                | ok status => exact feeds

/-- A value is given for the octets of a text only. -/
theorem octets_of_feed {reads : List Read} (arrive : ∀ r ∈ reads, r.Arrives) {v : Value}
    (value : feed s carry reads = .ok v) : ∃ T, octets T = carry ++ Read.joined reads := by
  induction reads generalizing s carry with
  | nil =>
      refine ⟨"", ?_⟩
      cases carry with
      | nil => rfl
      | cons b carry => cases value
  | cons r rest ih =>
      obtain ⟨arrives, later⟩ := List.forall_mem_cons.1 arrive
      cases r with
      | interrupted => exact ih later value
      | failed message => exact arrives.elim
      | octets bs =>
          obtain ⟨cs, left, e, read⟩ : ∃ cs left e, Utf8.decode (carry ++ bs) = (cs, left, e) :=
            ⟨_, _, _, rfl⟩
          have parts := (Utf8.decode_eq read).1
          suffices ∃ T, octets T = left ++ Read.joined rest by
            obtain ⟨T, spells⟩ := this
            refine ⟨String.ofList cs ++ T, ?_⟩
            rw [octets_append, spells, Read.joined_cons, Read.brought, ← List.append_assoc, ← parts,
              List.append_assoc]
          by_cases malformed : ∃ n, e = .invalid n
          · obtain ⟨n, rfl⟩ := malformed
            rw [feed_invalid arrives read] at value
            cases value
          · rw [feed_octets arrives read (fun n h => malformed ⟨n, h⟩)] at value
            split at value
            · exact ih later value
            · split at value
              · exact ih later value
              · cases value

theorem read_of_allocatable (parser : Parser) (reads : List Read) {size : Nat} (allocatable : size ≤ maxAllocation) :
    parser.read reads size = some (feed parser.stream [] (Read.limited (max size 4) reads)) := by
  have most : maxAllocation = 0x7FFFFFFFFFFFFFFF := rfl
  have small : ¬ maxAllocation < max size 4 := by omega
  rw [read, if_neg small]

theorem read_of_not_allocatable (parser : Parser) (reads : List Read) {size : Nat} (large : maxAllocation < size) :
    parser.read reads size = none := by
  rw [read, if_pos (Nat.lt_of_lt_of_le large (Nat.le_max_left ..))]

/-- An answer is what the reads give through the window. -/
theorem feed_of_read {parser : Parser} {reads : List Read} {size : Nat} {answer : Except ParseError Value}
    (given : parser.read reads size = some answer) :
    feed parser.stream [] (Read.limited (max size 4) reads) = answer := by
  rw [read] at given
  split at given
  · cases given
  · exact Option.some.inj given

/-- However the octets of a text arrive, and however many at a time, they give what the text
gives: the same value, or the same fault at the same place with the same expectations.
Octets that are not those of a text give an error. Only a window that is larger than
anything that can be asked for ends the program. -/
theorem read_agrees {g : Grammar} {config : ParserConfig} {parser : Parser}
    (made : ofGrammar? g config = .ok parser) {reads : List Read} (size : Nat)
    (arrive : ∀ r ∈ reads, r.Arrives) :
    (size ≤ maxAllocation → ∃ answer, parser.read reads size = some answer ∧
      (∀ T, octets T = Read.joined reads → T.utf8ByteSize ≤ Buffer.maxOffset →
        T.utf8ByteSize ≤ config.minBufferSize →
        SameAnswer (fun e e' => e.Agrees e' ∧ e.lineAndColumn = e'.lineAndColumn) answer (parser.parse T)) ∧
      ((∀ T, octets T ≠ Read.joined reads) → ∃ e, answer = .error e)) ∧
    (maxAllocation < size → parser.read reads size = none) := by
  refine ⟨fun allocatable => ⟨_, parser.read_of_allocatable reads allocatable, ?_, ?_⟩,
    parser.read_of_not_allocatable reads⟩
  all_goals
    have positive : 0 < max size 4 := by omega
    have arrive' := Read.arrives_of_mem_limited positive arrive
    have joined := Read.joined_limited (max size 4) reads
  · intro T spells fits keeps
    obtain ⟨library, program, linked, configured, kept⟩ := ofGrammar?_made made
    obtain ⟨pieces, rfl, feeds⟩ := @feed_of_octets parser.stream [] _ _ arrive' T
      (by rw [joined, spells, List.nil_append]) (Utf8.decode_of_error rfl)
    rw [← kept] at keeps
    have answered : Answered True (parser.stream.feed pieces)
        (Stream.ofWhole parser.grammar library ("" ++ String.join pieces)).finish.2 :=
      (stream_live program).feed_answered linked configured rfl (by rwa [String.empty_append])
        (fun _ => rfl) (fun _ => by rw [String.empty_append]; exact keeps)
    rw [String.empty_append, Stream.ofWhole, ← program, ← feeds] at answered
    change Answered _ _ (parser.parse (String.join pieces)) at answered
    rcases answered with ⟨e, -, -, lost⟩ | same
    · exact (lost trivial).elim
    · exact same.imp fun _ _ _ h => ⟨h.1, (h.2 trivial).1⟩
  · intro malformed
    cases answer : feed parser.stream [] (Read.limited (max size 4) reads) with
    | error e => exact ⟨e, rfl⟩
    | ok v =>
        obtain ⟨T, spells⟩ := octets_of_feed arrive' answer
        exact (malformed T (by rw [spells, joined, List.nil_append])).elim

end Parser

/-- A letter of two octets. -/
def Grammar.accented : Grammar :=
  Grammar.empty.addRuleset "return" [.ofPatterns [.ofTokens [.literal "é"]] none]

/-- The letter in two reads, between which one was interrupted, and its first half alone. -/
theorem Parser.read_agrees_on_halves : ∃ parser, ofGrammar? Grammar.accented {} = .ok parser ∧
    (∀ r ∈ [Read.octets [0xC3], .interrupted, .octets [0xA9]], r.Arrives) ∧
    (∃ answer, parser.read [.octets [0xC3], .interrupted, .octets [0xA9]] 1 = some answer ∧
      SameAnswer (fun e e' => e.Agrees e' ∧ e.lineAndColumn = e'.lineAndColumn) answer (parser.parse "é")) ∧
    (∀ r ∈ [Read.octets [0xC3]], r.Arrives) ∧
    ∃ e, parser.read [.octets [0xC3]] 1 = some (.error e) := by
  obtain ⟨parser, made⟩ : ∃ parser, ofGrammar? Grammar.accented {} = .ok parser :=
    Except.eq_ok_of_isSome (by decide +kernel)
  have halves : ∀ r ∈ [Read.octets [0xC3], .interrupted, .octets [0xA9]], r.Arrives := by
    simp [Read.Arrives]
  have half : ∀ r ∈ [Read.octets [0xC3]], r.Arrives := by simp [Read.Arrives]
  refine ⟨parser, made, halves, ?_, half, ?_⟩
  · obtain ⟨answer, given, agrees, -⟩ := (read_agrees made 1 halves).1 (by decide)
    exact ⟨answer, given, agrees "é" (by decide +kernel) (by decide +kernel) (by decide +kernel)⟩
  · obtain ⟨answer, given, -, refused⟩ := (read_agrees made 1 half).1 (by decide)
    have cut : ∀ T, octets T ≠ Read.joined [Read.octets [0xC3]] := by
      intro T spells
      have read : Utf8.decode [0xC3] = ([], [0xC3], .cut) := Utf8.decode_of_error (by decide)
      rw [show Read.joined [.octets [0xC3]] = [0xC3] from rfl] at spells
      rw [← spells, Utf8.decode_octets] at read
      simp at read
    obtain ⟨e, rfl⟩ := refused cut
    exact ⟨e, given⟩

/-- A window larger than anything that can be asked for: the octets of a text are not parsed
as the text is. -/
theorem Parser.not_read_agrees_at_maxOffset : ∃ parser, ofGrammar? Grammar.accented {} = .ok parser ∧
    (∀ r ∈ [Read.octets [0xC3, 0xA9]], r.Arrives) ∧ octets "é" = Read.joined [.octets [0xC3, 0xA9]] ∧
    "é".utf8ByteSize ≤ ({} : ParserConfig).minBufferSize ∧
    ¬ ∃ answer, parser.read [.octets [0xC3, 0xA9]] Buffer.maxOffset = some answer ∧
      SameAnswer (fun e e' => e.Agrees e' ∧ e.lineAndColumn = e'.lineAndColumn) answer (parser.parse "é") := by
  obtain ⟨parser, made⟩ : ∃ parser, ofGrammar? Grammar.accented {} = .ok parser :=
    Except.eq_ok_of_isSome (by decide +kernel)
  refine ⟨parser, made, by simp [Read.Arrives], by decide +kernel, by decide +kernel, ?_⟩
  rintro ⟨answer, given, -⟩
  cases (parser.read_of_not_allocatable [.octets [0xC3, 0xA9]] (by decide)).symm.trans given

end PegFlow
