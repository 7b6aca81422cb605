/-
# PegFlow.Proofs.Meaning.Slots -- which slots a match fills

Tokens whose captures are numbered from some slot on record nothing in the slots before it
(`Token.parse_records`). So what was recorded in the first slot, when the slot is not
repeated, is its value in the end (`Capture.assemble_cons`).
-/
import PegFlow.Proofs.Grammar.Slots
import PegFlow.Proofs.Meaning.Grammar
import PegFlow.Proofs.Meaning.Yields

namespace PegFlow

set_option autoImplicit false

/-! ## Slots of matchers -/

mutual

/-- The slots of what is laid out from a slot on are not before it. -/
theorem Matcher.le_slots (next : Nat) (repeated : Bool) : ∀ (m : Matcher) (layout : List Bool),
    m.Laid next repeated layout → ∀ slot ∈ m.slots, next ≤ slot
  | .capture patterns _, _, ⟨rfl, inner, _, laid⟩, slot, member => by
      rcases List.mem_cons.1 member with rfl | inside
      · exact Nat.le_refl _
      · exact Nat.le_of_succ_le (Matcher.le_firstSlots _ _ patterns inner laid slot inside)
  | .group patterns, layout, laid, slot, member => Matcher.le_firstSlots _ _ patterns layout laid slot member

theorem Matcher.le_firstSlots (next : Nat) (repeated : Bool) :
    ∀ (ps : List Pattern) (layout : List Bool), Pattern.Laid next repeated ps layout →
      ∀ slot ∈ Matcher.firstSlots ps, next ≤ slot
  | ⟨tokens, _, _⟩ :: _, layout, ⟨laid, _⟩, slot, member =>
      Matcher.le_tokenSlots _ _ tokens layout laid slot member

theorem Matcher.le_tokenSlots (next : Nat) (repeated : Bool) :
    ∀ (ts : List Token) (layout : List Bool), Token.Laid next repeated ts layout →
      ∀ slot ∈ Matcher.tokenSlots ts, next ≤ slot
  | ⟨matcher, _, _, _, _, _, _⟩ :: rest, _, ⟨here, later, _, laid, laid'⟩, slot, member => by
      rcases List.mem_append.1 member with first | others
      · exact Matcher.le_slots _ _ matcher here laid slot first
      · exact Nat.le_trans (Nat.le_add_right _ _) (Matcher.le_tokenSlots _ _ rest later laid' slot others)

end

/-! ## What is recorded -/

/-- All captures of a match are in slots from `next` on. -/
def Outcome.Records (next : Nat) (o : Outcome (List Capture)) : Prop :=
  ∀ stop captures again, o = .pass stop captures again → ∀ c ∈ captures, next ≤ c.slot

theorem Outcome.Records.mono {o : Outcome (List Capture)} {next next' : Nat} (h : o.Records next')
    (le : next ≤ next') : o.Records next := fun stop captures again same c member =>
  Nat.le_trans le (h stop captures again same c member)

/-- All captures of its matches are in slots from `next` on. -/
def Parse.Records (next : Nat) (q : Parse (List Capture)) : Prop :=
  ∀ calls pos, (q calls pos).Records next

namespace Parse.Records

variable {T : String} {next : Nat} {q : Parse (List Capture)}

theorem modified (h : Records next q) {required repeated ahead notAhead : Bool} {slots : List Nat}
    (from_ : ∀ slot ∈ slots, next ≤ slot) :
    Records next (q.modified T required repeated ahead notAhead slots) := by
  refine Yields.modified h (fun _ => List.forall_mem_nil _) (fun _ => ⟨List.forall_mem_nil _, ?_⟩) ?_
  · exact fun first others h h' => List.forall_mem_append.2 ⟨h, h'⟩
  · exact List.forall_mem_map.2 from_

theorem captured (h : Records next q) {slot : Nat} (le : next ≤ slot) : Records next (q.captured T slot) :=
  Yields.captured h fun _ _ inside => List.forall_mem_append.2 ⟨inside, List.forall_mem_singleton.2 le⟩

end Parse.Records

section

variable {T : String} {call : Nat → Parse Value}

mutual

theorem Matcher.parse_records (next : Nat) (repeated : Bool) : ∀ (m : Matcher) (layout : List Bool),
    m.Laid next repeated layout → (m.parse T call).Records next
  | .capture patterns slot, _, ⟨is, inner, _, laid⟩ => by
      rw [Matcher.parse]
      split
      · exact Parse.Yields.recorded fun _ => List.forall_mem_singleton.2 (Nat.le_of_eq is.symm)
      · refine .captured (fun calls pos => ?_) (Nat.le_of_eq is.symm)
        exact (Pattern.parse_records _ _ patterns inner laid calls pos).mono (Nat.le_succ next)
  | .group patterns, layout, laid => by
      rw [Matcher.parse]
      exact Pattern.parse_records _ _ patterns layout laid
  | .ref _ none, _, _ => Parse.Yields.fail
  | .ref _ (some _), _, _ => Parse.Yields.silent (List.forall_mem_nil _)
  | .literal text _, _, _ => Parse.Yields.terminal (List.forall_mem_nil _) (.literal text)
  | .charClass spec _, _, _ => by
      rw [Matcher.parse]
      split
      · exact Parse.Yields.terminal (List.forall_mem_nil _) _
      · exact Parse.Yields.fail
  | .any _, _, _ => Parse.Yields.terminal (List.forall_mem_nil _) .any

/-- Tokens record nothing before the slot from which on they are laid out. -/
theorem Token.parse_records (next : Nat) (repeated : Bool) : ∀ (ts : List Token) (layout : List Bool),
    Token.Laid next repeated ts layout → (Token.parse T call ts).Records next
  | [], _, _ => Parse.Yields.pass (List.forall_mem_nil _)
  | ⟨matcher, required, again, ahead, notAhead, _, _⟩ :: rest, _, ⟨here, later, _, laid, laid'⟩ => by
      rw [Token.parse]
      refine Parse.Yields.andThen ?_ (fun calls pos => ?_) fun first second h h' =>
        List.forall_mem_append.2 ⟨h, h'⟩
      · exact (Matcher.parse_records _ _ matcher here laid).modified (Matcher.le_slots _ _ matcher here laid)
      · exact (Token.parse_records _ _ rest later laid' calls pos).mono (Nat.le_add_right _ _)

theorem Pattern.parse_records (next : Nat) (repeated : Bool) :
    ∀ (ps : List Pattern) (layout : List Bool), Pattern.Laid next repeated ps layout →
      (Pattern.parse T call ps).Records next
  | [], _, _ => Parse.Yields.fail
  | ⟨tokens, _, _⟩ :: rest, layout, ⟨laid, laid'⟩ => by
      rw [Pattern.parse]
      exact Parse.Yields.orElse (Token.parse_records _ _ tokens layout laid)
        (Pattern.parse_records _ _ rest layout laid')

end

end

/-! ## Values of slots -/

/-- The first slot has the value that was recorded in it, when nothing else was. -/
theorem Capture.assemble_cons {layout : List Bool} {captures : List Capture}
    (later : ∀ c ∈ captures, 2 ≤ c.slot) (v : Value) :
    Capture.assemble (false :: layout) (⟨1, v⟩ :: captures) =
      v :: (Capture.assemble (false :: layout) captures).tail := by
  have none : captures.filterMap (fun c => if c.slot = 0 + 1 then some c.value else none) = [] := by
    rw [List.filterMap_eq_nil_iff]
    intro c member
    have := later c member
    exact if_neg (by omega)
  rw [Capture.assemble, Capture.assemble, List.zipIdx_cons, List.map_cons, List.map_cons, List.tail_cons]
  refine congrArg₂ List.cons ?_ (List.map_congr_left ?_)
  · simp [none]
  · rintro ⟨again, i⟩ member
    have other : ¬ (1 = i + 1) := by
      have := List.mem_zipIdx member
      omega
    simp only [List.filterMap_cons, if_neg other]

end PegFlow
