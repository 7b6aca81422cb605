/-
# PegFlow.Proofs.Stream.Placed -- errors are where they say

The line and column of an error, where it has them, are those of its position in the text
so far, however that text came (`Stream.Account.write`, `Stream.Account.close`). Octets from
outside make one exception: when malformed octets come in the same read as whole characters
in front of them, those characters count for the position and not for the line and column,
because the buffer does not hold them yet (`Parser.feed_placed`, `Parser.errors_placed`).
-/
import PegFlow.Proofs.Stream.Reader
import PegFlow.Proofs.Text.Position

namespace PegFlow

set_option autoImplicit false

open Text Machine

namespace ParseError

/-- The error lies within the text, and its line and column, if any, are those of its
position there. -/
structure PlacedIn (e : ParseError) (T : String) : Prop where
  within : e.position ≤ T.utf8ByteSize
  place : ∀ line column, e.lineAndColumn = some (line, column) →
    SourcePosition.ofOffset T e.position = ⟨e.position, line, column⟩

/-- The error is at the end of the text `T`, but has the line and column of the end of `P`. -/
structure PlacedShort (e : ParseError) (P T : String) : Prop where
  position : e.position = T.utf8ByteSize
  place : ∃ line column, e.lineAndColumn = some (line, column) ∧
    SourcePosition.ofOffset P P.utf8ByteSize = ⟨P.utf8ByteSize, line, column⟩

variable {e : ParseError} {P : String}

theorem PlacedIn.append (placed : e.PlacedIn P) (more : String) : e.PlacedIn (P ++ more) := by
  refine ⟨?_, fun line column given => ?_⟩
  · rw [String.utf8ByteSize_append]
    exact Nat.le_add_right_of_le placed.within
  · rw [← placed.place line column given, SourcePosition.ofOffset_eq placed.within,
      SourcePosition.ofOffset_eq, Buffer.cursorAt_append more placed.within]
    rw [String.utf8ByteSize_append]
    exact Nat.le_add_right_of_le placed.within

/-- The two places are different when there is text between them. -/
theorem PlacedShort.not_placedIn {m : String} (short : e.PlacedShort P (P ++ m)) (some : m ≠ "") :
    ¬ e.PlacedIn (P ++ m) := by
  intro placed
  obtain ⟨line, column, given, ofShort⟩ := short.place
  have ofWhole := placed.place line column given
  rw [short.position, SourcePosition.ofOffset_eq (le_refl _)] at ofWhole
  rw [SourcePosition.ofOffset_eq (le_refl _)] at ofShort
  simp only [SourcePosition.mk.injEq] at ofWhole ofShort
  have lines := Nat.succ.inj (ofWhole.2.1.trans ofShort.2.1.symm)
  have columns := Nat.succ.inj (ofWhole.2.2.trans ofShort.2.2.symm)
  exact Buffer.cursorAt_end_ne some (by rw [Cursor.mk.injEq]; exact ⟨lines, columns⟩)

end ParseError

namespace Stream

variable {g : AnnotatedGrammar} {library : Library} {P : String} {s : Stream}

theorem errorAt_placed (shows : s.buffer.Shows P) (f : Fault) {p : Nat} (le : p ≤ P.utf8ByteSize) :
    (s.errorAt f p).PlacedIn P := by
  refine ⟨le, fun line column given => ?_⟩
  change SourcePosition.ofOffset P p = ⟨p, line, column⟩
  rw [SourcePosition.ofOffset_eq le]
  simp only [errorAt] at given
  by_cases low : s.buffer.start ≤ p
  · rw [shows.lineAndColumn_eq low] at given
    cases given
    rfl
  · rw [Buffer.lineAndColumn, Buffer.checkRetained_of_lt (Nat.lt_of_not_le low)] at given
    cases given

/-- The part of a text that a stream takes when it is written to it: none once it has ended. -/
def taken (s : Stream) (text : String) : String :=
  if s.error.isNone && !s.buffer.closed then text else ""

/-- The streams of a parser, with the text that they have taken. -/
inductive Fed (parser : Parser) : String → Stream → Prop
  | start : Fed parser "" parser.stream
  | write {P : String} {s : Stream} (before : Fed parser P s) (text : String)
      (fits : (P ++ s.taken text).utf8ByteSize ≤ Buffer.maxOffset) :
      Fed parser (P ++ s.taken text) (s.write text).1
  | close {P : String} {s : Stream} (before : Fed parser P s) : Fed parser P s.close.1

/-- The stream stands somewhere in the text, or it has stopped at an error that is placed in
it. -/
def Account (g : AnnotatedGrammar) (library : Library) (P : String) (s : Stream) : Prop :=
  s.Live g library P ∨ ∃ e, s.error = some e ∧ e.PlacedIn P

/-- A call leaves a stream accounted for, and its error is placed in the text. -/
def Places (g : AnnotatedGrammar) (library : Library) (P : String) {α : Type}
    (call : Stream × Except ParseError α) : Prop :=
  call.1.Account g library P ∧ ∀ e, call.2 = .error e → e.PlacedIn P

theorem fail_places {α : Type} (shows : s.buffer.Shows P) (f : Fault) {p : Nat} (le : p ≤ P.utf8ByteSize) :
    Places g library P (s.fail f p : Stream × Except ParseError α) := by
  have placed := errorAt_placed shows f le
  refine ⟨Or.inr ⟨s.errorAt f p, rfl, placed⟩, fun e h => ?_⟩
  cases h
  exact placed

theorem Live.advance_places (live : s.Live g library P) (linked : g.Linked)
    (configured : (Program.ofGrammar g library).Configured) : Places g library P s.advance := by
  rw [advance_eq]
  cases h : s.ran.trouble? s.runMachine.2 with
  | some end_ => exact fail_places (s := s.ran) live.stands.shows _ (live.trouble linked configured h).1
  | none => exact ⟨Or.inl (live.goesOn linked h).1, fun e h => nomatch h⟩

theorem Live.finish_places (live : s.Live g library P) (linked : g.Linked)
    (configured : (Program.ofGrammar g library).Configured) (isClosed : s.buffer.closed = true) :
    Places g library P s.finish := by
  rw [live.finish_eq linked isClosed]
  cases h : s.ran.trouble? s.runMachine.2 with
  | some end_ => exact fail_places (s := s.ran) live.stands.shows _ (live.trouble linked configured h).1
  | none => exact ⟨Or.inl (live.goesOn linked h).1, fun e h => nomatch h⟩

/-- A write to an open stream goes on with the longer text, or fails with an error placed in
it. -/
theorem Live.write_places (live : s.Live g library P) (linked : g.Linked)
    (configured : (Program.ofGrammar g library).Configured) (isOpen : s.buffer.closed = false) {text : String}
    (fits : (P ++ text).utf8ByteSize ≤ Buffer.maxOffset) :
    (∃ s' status, s.write text = (s', .ok status) ∧ s'.Live g library (P ++ text) ∧
      s'.buffer.closed = false) ∨
    ∃ s' e, s.write text = (s', .error e) ∧ e.PlacedIn (P ++ text) := by
  obtain ⟨b, appended, isOpen', -⟩ := Buffer.append_of_open isOpen text
  have later := live.append isOpen appended fits
  rw [write_eq live.error isOpen appended, advance_eq]
  generalize hs : ({ s with buffer := b } : Stream) = s' at later
  cases h : s'.ran.trouble? s'.runMachine.2 with
  | some end_ =>
      have placed := errorAt_placed (s := s'.ran) later.stands.shows end_.1 (later.trouble linked configured h).1
      exact Or.inr ⟨_, _, rfl, placed⟩
  | none =>
      refine Or.inl ⟨_, _, rfl, (later.goesOn linked h).1, ?_⟩
      rw [← hs]
      exact isOpen'

namespace Account

/-- After an error every call gives that error again. -/
theorem again {α : Type} {e : ParseError} (account : s.Account g library P) (error : s.error = some e) :
    Places g library P (s, (.error e : Except ParseError α)) := by
  refine ⟨account, fun e' h => ?_⟩
  cases h
  rcases account with live | ⟨e', found, placed⟩
  · cases live.error.symm.trans error
  · cases found.symm.trans error
    exact placed

theorem live (account : s.Account g library P) (error : s.error = none) : s.Live g library P := by
  rcases account with live | ⟨e, found, -⟩
  · exact live
  · cases found.symm.trans error

theorem write (account : s.Account g library P) (linked : g.Linked)
    (configured : (Program.ofGrammar g library).Configured) {text : String}
    (fits : (P ++ s.taken text).utf8ByteSize ≤ Buffer.maxOffset) :
    Places g library (P ++ s.taken text) (s.write text) := by
  cases error : s.error with
  | some e =>
      rw [Stream.write, error, taken, error, if_neg (by simp), String.append_empty]
      exact account.again error
  | none =>
      have live := account.live error
      cases closed : s.buffer.closed with
      | true =>
          simp only [Stream.write, taken, error, closed, if_true]
          rw [if_neg (by simp), String.append_empty]
          exact fail_places live.stands.shows _ (Nat.le_of_eq live.stands.shows.length_eq)
      | false =>
          have whole : s.taken text = text := by simp [taken, error, closed]
          rw [whole] at fits ⊢
          obtain ⟨b, appended, -⟩ := Buffer.append_of_open closed text
          rw [write_eq error closed appended]
          exact (live.append closed appended fits).advance_places linked configured

theorem close (account : s.Account g library P) (linked : g.Linked)
    (configured : (Program.ofGrammar g library).Configured) : Places g library P s.close := by
  cases error : s.error with
  | some e =>
      rw [Stream.close, error]
      exact account.again error
  | none =>
      rw [close_eq error]
      exact (account.live error).close.finish_places linked configured rfl

end Account

theorem Fed.account {parser : Parser} (program : parser.program = Program.ofGrammar g library)
    (linked : g.Linked) (configured : (Program.ofGrammar g library).Configured) (fed : Fed parser P s) :
    s.Account g library P := by
  induction fed with
  | start => exact Or.inl (Parser.stream_live program)
  | write _ text fits ih => exact (ih.write linked configured fits).1
  | close _ ih => exact (ih.close linked configured).1

end Stream

/-! ## Octets from outside -/

namespace Read

/-- The octets that are read up to the end or a failure. -/
def received : List Read → List UInt8
  | [] => []
  | .octets [] :: _ => []
  | .octets (b :: bs) :: rest => b :: bs ++ received rest
  | .interrupted :: rest => received rest
  | .failed _ :: _ => []

theorem received_octets {bs : List UInt8} (arrives : bs ≠ []) (rest : List Read) :
    received (.octets bs :: rest) = bs ++ received rest := by
  cases bs with
  | nil => exact (arrives rfl).elim
  | cons b bs => rfl

theorem received_append {reads : List Read} (arrive : ∀ r ∈ reads, r.Arrives) (rest : List Read) :
    received (reads ++ rest) = joined reads ++ received rest := by
  induction reads with
  | nil => rfl
  | cons r reads ih =>
      obtain ⟨arrives, later⟩ := List.forall_mem_cons.1 arrive
      rw [List.cons_append, joined_cons]
      cases r with
      | octets bs => rw [received_octets arrives, ih later, brought, List.append_assoc]
      | interrupted => exact ih later
      | failed message => exact arrives.elim

theorem received_limited {limit : Nat} (positive : 0 < limit) (reads : List Read) :
    received (limited limit reads) = received reads := by
  induction reads with
  | nil => rfl
  | cons r rest ih =>
      rw [limited, List.flatMap_cons, ← limited]
      cases r with
      | octets bs =>
          cases bs with
          | nil => rfl
          | cons b bs =>
              rw [received_append (arrives_of_mem_cut (List.cons_ne_nil b bs) positive), joined_cut, ih,
                received_octets (List.cons_ne_nil b bs)]
      | interrupted => exact ih
      | failed message => rfl

/-- After octets that came `before`, some read brings malformed octets and characters in front
of them: the text is `P` before that read, and `T` with its characters. -/
def Breaks (before : List UInt8) (reads : List Read) (P T : String) : Prop :=
  ∃ earlier bs later left n, reads = earlier ++ .octets bs :: later ∧ (∀ r ∈ earlier, r.Arrives) ∧
    Utf8.readable (before ++ joined earlier) = P ∧
    Utf8.decode (before ++ joined earlier ++ bs) = (T.toList, left, .invalid n) ∧ P ≠ T

theorem Breaks.extends {before : List UInt8} {reads : List Read} {P T : String}
    (breaks : Breaks before reads P T) : ∃ m, T = P ++ m ∧ m ≠ "" := by
  obtain ⟨earlier, bs, later, left, n, -, -, whole, read, ne⟩ := breaks
  have more := @Utf8.readable_append (before ++ joined earlier) _ _ _ rfl bs
  rw [← Utf8.readable, whole, Utf8.readable, read, String.ofList_toList] at more
  refine ⟨_, more, fun none => ne ?_⟩
  rw [more, none, String.append_empty]

end Read

/-- The error is placed in the text that can be read of octets that came `before` and of reads,
or it is placed short in it because of malformed octets. -/
def ParseError.LocatedIn (e : ParseError) (before : List UInt8) (reads : List Read) : Prop :=
  e.PlacedIn (Utf8.readable (before ++ Read.received reads)) ∨
    ∃ P, Read.Breaks before reads P (Utf8.readable (before ++ Read.received reads)) ∧
      e.PlacedShort P (Utf8.readable (before ++ Read.received reads))

theorem ParseError.LocatedIn.cons {e : ParseError} {before : List UInt8} {r : Read} {reads : List Read}
    (located : e.LocatedIn (before ++ r.brought) reads) (arrives : r.Arrives) : e.LocatedIn before (r :: reads) := by
  have received := Read.received_append (List.forall_mem_singleton.2 arrives) reads
  rw [Read.joined_cons, Read.joined_nil, List.append_nil, List.singleton_append] at received
  rw [LocatedIn, received, ← List.append_assoc]
  rcases located with placed | ⟨P, breaks, short⟩
  · exact Or.inl placed
  · obtain ⟨earlier, bs, later, left, n, rfl, arrive, whole, read, ne⟩ := breaks
    rw [List.append_assoc before, ← Read.joined_cons] at whole read
    exact Or.inr ⟨P, ⟨r :: earlier, bs, later, left, n, rfl, List.forall_mem_cons.2 ⟨arrives, arrive⟩,
      whole, read, ne⟩, short⟩

namespace Parser

variable {g : AnnotatedGrammar} {library : Library} {s : Stream} {before carry : List UInt8} {P : String}
  {ending : Utf8.Ending} {e : ParseError}

theorem finishReads_placed (live : s.Live g library P) (linked : g.Linked)
    (configured : (Program.ofGrammar g library).Configured) (error : finishReads s carry = .error e) :
    e.PlacedIn P := by
  rw [finishReads] at error
  split at error
  · rw [Stream.close_eq live.error] at error
    exact (live.close.finish_places linked configured rfl).2 e error
  · cases error
    exact Stream.errorAt_placed live.stands.shows _ (Nat.le_of_eq live.stands.shows.length_eq)

/-- The error of malformed octets has the line and column of the end of the text so far. -/
theorem invalid_placedShort (shows : s.buffer.Shows P) (f : Fault) (m : String) :
    (s.errorAt f (s.buffer.length + m.utf8ByteSize)).PlacedShort P (P ++ m) := by
  have le : P.utf8ByteSize ≤ s.buffer.length + m.utf8ByteSize := by
    rw [shows.length_eq]
    exact Nat.le_add_right _ _
  refine ⟨by rw [String.utf8ByteSize_append, ← shows.length_eq]; rfl, _, _, ?_,
    SourcePosition.ofOffset_eq (le_refl _)⟩
  have atEnd : Buffer.cursorAt P (s.buffer.length + m.utf8ByteSize) = Buffer.cursorAt P P.utf8ByteSize := by
    rw [Buffer.cursorAt, Buffer.cursorAt, List.take_of_length_le, List.take_of_length_le]
    · rw [length_octets]
    · rwa [length_octets]
  simp only [Stream.errorAt]
  rw [shows.lineAndColumn_eq (shows.start_le.trans le), atEnd]
  rfl

/-- An error that is placed in the text so far is located in what comes after it. -/
theorem located_of_placed (read : Utf8.decode before = (P.toList, carry, ending)) (placed : e.PlacedIn P)
    (reads : List Read) : e.LocatedIn before reads := by
  refine Or.inl ?_
  rw [Utf8.readable_append read, String.ofList_toList]
  exact placed.append _

/-- The error of malformed octets is located in the reads. -/
theorem located_of_invalid (shows : s.buffer.Shows P) (read : Utf8.decode before = (P.toList, carry, ending))
    {bs left : List UInt8} {cs : List Char} {n : Nat} (arrives : bs ≠ [])
    (malformed : Utf8.decode (before ++ bs) = ((P ++ String.ofList cs).toList, left, .invalid n)) (f : Fault)
    (rest : List Read) : (s.errorAt f (s.buffer.length + (String.ofList cs).utf8ByteSize)).LocatedIn before
      (.octets bs :: rest) := by
  have whole : Utf8.readable (before ++ Read.received (.octets bs :: rest)) = P ++ String.ofList cs := by
    rw [Read.received_octets arrives, ← List.append_assoc, Utf8.readable,
      Utf8.decode_invalid_append malformed, String.ofList_toList]
  have short := invalid_placedShort shows f (String.ofList cs)
  rw [ParseError.LocatedIn, whole]
  by_cases none : String.ofList cs = ""
  · rw [none, String.append_empty]
    exact Or.inl (Stream.errorAt_placed shows f (Nat.le_of_eq shows.length_eq))
  · refine Or.inr ⟨P, ⟨[], bs, rest, left, n, rfl, List.forall_mem_nil _, ?_, ?_, ?_⟩, short⟩
    · rw [Read.joined_nil, List.append_nil, Utf8.readable, read, String.ofList_toList]
    · rw [Read.joined_nil, List.append_nil]
      exact malformed
    · intro same
      exact none ((String.append_right_inj P).1 (by rw [← same, String.append_empty]))

/-- An error of a parse that goes on with reads is located in them, by induction on the reads;
`before` are the octets so far, of which the stream has the text `P` and `carry` is left. -/
theorem feed_located {reads : List Read} (live : s.Live g library P) (linked : g.Linked)
    (configured : (Program.ofGrammar g library).Configured) (isOpen : s.buffer.closed = false)
    (read : Utf8.decode before = (P.toList, carry, ending))
    (fits : (Utf8.readable (before ++ Read.received reads)).utf8ByteSize ≤ Buffer.maxOffset)
    (error : feed s carry reads = .error e) : e.LocatedIn before reads := by
  induction reads generalizing s before carry P ending with
  | nil => exact located_of_placed read (finishReads_placed live linked configured error) _
  | cons r rest ih =>
      match r with
      | .octets [] => exact located_of_placed read (finishReads_placed live linked configured error) _
      | .failed message =>
        cases error
        exact located_of_placed read
          (Stream.errorAt_placed live.stands.shows _ (Nat.le_of_eq live.stands.shows.length_eq)) _
      | .interrupted =>
        have located : e.LocatedIn (before ++ []) rest := by
          rw [List.append_nil]
          exact ih live isOpen read fits error
        exact located.cons (r := .interrupted) trivial
      | .octets (b :: bs) =>
        have arrives := List.cons_ne_nil b bs
        generalize b :: bs = bs at arrives fits error ⊢
        rw [Read.received_octets arrives, ← List.append_assoc] at fits
        obtain ⟨cs, left, ending', read'⟩ : ∃ cs left ending', Utf8.decode (carry ++ bs) = (cs, left, ending') :=
          ⟨_, _, _, rfl⟩
        have later : Utf8.decode (before ++ bs) = ((P ++ String.ofList cs).toList, left, ending') := by
          rw [Utf8.decode_append read, read', String.toList_append, String.toList_ofList]
        by_cases malformed : ∃ n, ending' = .invalid n
        · obtain ⟨n, rfl⟩ := malformed
          rw [feed_invalid arrives read'] at error
          cases error
          exact located_of_invalid live.stands.shows read arrives later _ rest
        · rw [feed_octets arrives read' (fun n h => malformed ⟨n, h⟩)] at error
          refine ParseError.LocatedIn.cons (r := .octets bs) (?_ : e.LocatedIn (before ++ bs) rest) arrives
          split at error
          · rename_i none
            rw [none, String.ofList_nil, String.append_empty] at later
            exact ih live isOpen later fits error
          · have fits' : (P ++ String.ofList cs).utf8ByteSize ≤ Buffer.maxOffset := by
              rw [Utf8.readable_append later, String.ofList_toList, String.utf8ByteSize_append] at fits
              omega
            rcases live.write_places linked configured isOpen fits' with
              ⟨s', status, written, live', isOpen'⟩ | ⟨s', e', written, placed⟩
            · rw [written] at error
              exact ih live' isOpen' later fits error
            · rw [written] at error
              cases error
              exact located_of_placed later placed rest

/-- Errors are where they say. The line and column of an error, where it has them, are those of
its position in the text that was parsed (`parse`), that the stream has taken (`write` and
`close`) or that can be read of the octets (`read`). The one exception is that of malformed
octets behind characters of the same read: that error is at the end of the text that can be
read, but has the line and column of the end of the text before the read. -/
theorem errors_placed {g : Grammar} {config : ParserConfig} {parser : Parser}
    (made : ofGrammar? g config = .ok parser) :
    (∀ T, T.utf8ByteSize ≤ Buffer.maxOffset → ∀ e, parser.parse T = .error e → e.PlacedIn T) ∧
    (∀ P s, Stream.Fed parser P s →
      (∀ text, (P ++ s.taken text).utf8ByteSize ≤ Buffer.maxOffset →
        ∀ e, (s.write text).2 = .error e → e.PlacedIn (P ++ s.taken text)) ∧
      ∀ e, s.close.2 = .error e → e.PlacedIn P) ∧
    ∀ reads size T, T = Utf8.readable (Read.received reads) → T.utf8ByteSize ≤ Buffer.maxOffset →
      ∀ e, parser.read reads size = some (.error e) → e.PlacedIn T ∨
        (¬ e.PlacedIn T ∧ ∃ P, Read.Breaks [] (Read.limited (max size 4) reads) P T ∧ e.PlacedShort P T) := by
  obtain ⟨library, program, linked, configured, -⟩ := ofGrammar?_made made
  refine ⟨?_, ?_, ?_⟩
  · intro T fits e error
    have live : (Stream.start parser.program (Buffer.complete T)).Live parser.grammar library T := by
      rw [program]
      exact Stream.ofWhole_live parser.grammar library fits
    exact (live.finish_places linked configured (Buffer.complete_closed T)).2 e error
  · intro P s fed
    have account := fed.account program linked configured
    exact ⟨fun text fits => (account.write linked configured fits).2, (account.close linked configured).2⟩
  · rintro reads size T rfl fits e error
    rw [← Read.received_limited (show 0 < max size 4 by omega) reads] at fits ⊢
    have located : e.LocatedIn [] _ :=
      feed_located (stream_live program) linked configured rfl (Utf8.decode_of_error rfl) fits (feed_of_read error)
    rcases located with placed | ⟨P, breaks, short⟩
    · exact Or.inl placed
    · obtain ⟨m, whole, some⟩ := Read.Breaks.extends breaks
      refine Or.inr ⟨?_, P, breaks, short⟩
      rw [whole] at short
      exact whole ▸ short.not_placedIn some

end Parser

/-- What is known of the error of an answer. -/
def ParseError.known : Option (Except ParseError Value) → Option (Nat × Option (Nat × Nat))
  | some (.error e) => some (e.position, e.lineAndColumn)
  | _ => none

theorem ParseError.exists_of_known {answer : Option (Except ParseError Value)} {position : Nat}
    {place : Option (Nat × Nat)} (known : ParseError.known answer = some (position, place)) :
    ∃ e, answer = some (.error e) ∧ e.position = position ∧ e.lineAndColumn = place := by
  rcases answer with _ | e | v
  · cases known
  · cases known
    exact ⟨e, rfl, rfl, rfl⟩
  · cases known

/-- A text without the letter, whole and in a stream, and octets with two characters and a
malformed octet in one read: the position is behind the two characters, on the second line,
and the line and column are those of the start. -/
theorem Parser.errors_placed_but_behind_characters : ∃ parser e, ofGrammar? Grammar.accented {} = .ok parser ∧
    (∀ e, parser.parse "a" = .error e → e.PlacedIn "a") ∧
    Stream.Fed parser ("" ++ parser.stream.taken "a") (parser.stream.write "a").1 ∧
    (∀ e, (parser.stream.write "a").1.close.2 = .error e → e.PlacedIn ("" ++ parser.stream.taken "a")) ∧
    parser.read [.octets [0x61, 0x0A, 0xFF]] 8 = some (.error e) ∧ e.position = 2 ∧ e.lineAndColumn = some (1, 1) ∧
    ¬ e.PlacedIn "a\n" ∧
    ∃ P, Read.Breaks [] (Read.limited 8 [.octets [0x61, 0x0A, 0xFF]]) P "a\n" ∧ e.PlacedShort P "a\n" := by
  have known : (ofGrammar? Grammar.accented {}).toOption.map (fun p =>
      ParseError.known (p.read [.octets [0x61, 0x0A, 0xFF]] 8)) = some (some (2, some (1, 1))) := by
    decide +kernel
  obtain ⟨parser, made⟩ : ∃ parser, ofGrammar? Grammar.accented {} = .ok parser :=
    Except.eq_ok_of_isSome (by decide +kernel)
  rw [made] at known
  simp only [Except.toOption, Option.map_some, Option.some.injEq] at known
  obtain ⟨e, answer, position, place⟩ := ParseError.exists_of_known known
  obtain ⟨whole, stream, octets⟩ := errors_placed made
  have fed : Stream.Fed parser ("" ++ parser.stream.taken "a") (parser.stream.write "a").1 :=
    .write .start "a" (by show ("" ++ "a").utf8ByteSize ≤ _; decide +kernel)
  have readable : "a\n" = Utf8.readable (Read.received [.octets [0x61, 0x0A, 0xFF]]) := by
    decide +kernel
  have misplaced : ¬ e.PlacedIn "a\n" := by
    intro placed
    have second := placed.place 1 1 place
    rw [position] at second
    revert second
    decide +kernel
  obtain placed | ⟨-, short⟩ := octets _ 8 _ readable (by decide +kernel) e answer
  · exact (misplaced placed).elim
  · exact ⟨parser, e, made, whole "a" (by decide +kernel), fed, (stream _ _ fed).2, answer, position, place,
      misplaced, short⟩

end PegFlow
