import Mathlib.Data.List.Forall2
import SheetMarkup.Proofs.Lexeme.Classes

/-!
# Maximal munch

The inside of a tag is read if and only if it is a row of lexemes with blanks beside them, where
each lexeme is the longest of its class at its place and has the value of what it spells
(`Lexeme.readAll_eq_ok_iff`). A text that is no such row is refused. The places of the lexemes
follow one another, and what they leave uncovered are blanks (`Lexeme.placed_spans`). Main result:
`readAll_maximal_munch`.
-/

namespace SheetMarkup.Lexeme

/-! ## Rows -/

/-- A text that is made up of lexemes, each with the blanks before it and each the longest of its
class where it stands, and of the blanks behind them. -/
inductive Munched : List Char → List (List Char × Lexeme) → List Char → Prop
  | done {trail : List Char} : (∀ c ∈ trail, Text.isBlank c = true) → Munched trail [] trail
  | more {lead cs rest trail : List Char} {lexeme : Lexeme} {row : List (List Char × Lexeme)} :
      (∀ c ∈ lead, Text.isBlank c = true) → First cs lexeme rest → Munched rest row trail →
      Munched (lead ++ cs) ((lead, lexeme) :: row) trail

/-- No lexeme begins with a blank. -/
theorem isBlank_of_of? {c : Char} {cls : Class} (h : Class.of? c = some cls) :
    Text.isBlank c = false := by
  unfold Class.of? at h
  split at h
  · next quote => rcases quote with rfl | rfl <;> rfl
  split at h
  · next number =>
    rcases number with rfl | digit
    · rfl
    · obtain ⟨low, high⟩ := Text.toNat_of_isDigit digit
      exact Text.isBlank_eq_false (by omega) (by omega)
  split at h
  · next name =>
    obtain ⟨low, high⟩ := toNat_of_isNameStart name
    exact Text.isBlank_eq_false (by omega) (by omega)
  split at h
  · next operator =>
    simp only [isOperatorChar, Bool.or_eq_true, beq_iff_eq] at operator
    rcases operator with rfl | rfl <;> rfl
  split at h
  · next mark =>
    obtain ⟨symbol, found⟩ := Option.isSome_iff_exists.mp mark
    have mem := mem_marks_of_ofChar? found
    simp only [List.mem_cons, List.not_mem_nil, or_false] at mem
    rcases mem with rfl | rfl | rfl | rfl | rfl | rfl | rfl | rfl | rfl <;> rfl
  · cases h

/-- The texts that are read are the rows of longest lexemes. -/
theorem readAll_eq_ok_iff {cs trail : List Char} {row : List (List Char × Lexeme)} :
    readAll cs = .ok (row, trail) ↔ Munched cs row trail := by
  have blanks (cs : List Char) : ∀ c ∈ cs.takeWhile Text.isBlank, Text.isBlank c = true :=
    List.all_eq_true.mp List.all_takeWhile
  constructor
  · intro h
    fun_induction readAll cs generalizing row with
    | case1 cs lead body =>
        rename_i none
        simp only [Except.ok.injEq, Prod.mk.injEq] at h
        obtain ⟨rfl, rfl⟩ := h
        -- nothing is left behind the blanks
        have all : lead = cs := by
          have split := List.takeWhile_append_dropWhile (p := Text.isBlank) (l := cs)
          rwa [show cs.dropWhile Text.isBlank = [] from none, List.append_nil] at split
        have munched : Munched lead [] lead := .done (blanks cs)
        rwa [all] at munched ⊢
    | case2 => cases h
    | case3 => cases h
    | case4 cs lead body _ lexeme rest first more trail' others =>
        rename_i ih
        simp only [Except.ok.injEq, Prod.mk.injEq] at h
        obtain ⟨rfl, rfl⟩ := h
        have munched := Munched.more (blanks cs) (read_eq_ok_iff.mp first) (ih others)
        rwa [List.takeWhile_append_dropWhile] at munched
  · intro h
    induction h with
    | done blanks => exact readAll_blanks blanks
    | more blanks first _ ih =>
        obtain ⟨c, tail, cls, rfl, begins⟩ := first.exists_eq_cons
        exact readAll_of_read blanks (by simpa using isBlank_of_of? begins)
          (read_eq_ok_iff.mpr first) ih

/-! ## Places -/

/-- A part of a text, from one place up to another. -/
structure Span where
  start : Nat
  stop : Nat
deriving DecidableEq, Repr

/-- The places of the lexemes in a row that begins at `start`. -/
def spans (start : Nat) : List (List Char × Lexeme) → List Span
  | [] => []
  | (lead, lexeme) :: row =>
    let first := start + lead.length
    let behind := first + lexeme.spelling.length
    ⟨first, behind⟩ :: spans behind row

/-- The places of lexemes in a text: none is empty, each is that of the spelling, they are in order
and apart from each other, and there are only blanks beside them. -/
structure Placed (cs : List Char) (row : List (List Char × Lexeme)) (places : List Span) :
    Prop where
  spelled : List.Forall₂ (fun entry place => place.start < place.stop ∧ place.stop ≤ cs.length ∧
    (cs.drop place.start).take (place.stop - place.start) = entry.2.spelling) row places
  ordered : places.Pairwise fun a b => a.stop ≤ b.start
  uncovered : ∀ i c, cs[i]? = some c →
    (∃ place ∈ places, place.start ≤ i ∧ i < place.stop) ∨ Text.isBlank c = true

theorem start_le_of_mem_spans {start : Nat} {row : List (List Char × Lexeme)} {place : Span}
    (mem : place ∈ spans start row) : start ≤ place.start := by
  induction row generalizing start with
  | nil => cases mem
  | cons entry row ih =>
      obtain ⟨lead, lexeme⟩ := entry
      rcases List.mem_cons.mp mem with rfl | mem
      · exact Nat.le_add_right _ _
      · have := ih mem
        omega

theorem pairwise_spans (start : Nat) (row : List (List Char × Lexeme)) :
    (spans start row).Pairwise fun a b => a.stop ≤ b.start := by
  induction row generalizing start with
  | nil => exact .nil
  | cons entry row ih =>
      obtain ⟨lead, lexeme⟩ := entry
      exact .cons (fun place mem => start_le_of_mem_spans mem) (ih _)

theorem spellAll_cons (lead : List Char) (lexeme : Lexeme) (row : List (List Char × Lexeme))
    (trail : List Char) :
    spellAll ((lead, lexeme) :: row) ++ trail =
      lead ++ (lexeme.spelling ++ (spellAll row ++ trail)) := by
  simp [spellAll]

/-- The places of a row that stands behind other text. -/
theorem spelled_spans (before : List Char) {row : List (List Char × Lexeme)}
    (nonempty : ∀ entry ∈ row, entry.2.spelling ≠ []) (trail : List Char) :
    List.Forall₂ (fun entry place => place.start < place.stop ∧
        place.stop ≤ (before ++ (spellAll row ++ trail)).length ∧
        ((before ++ (spellAll row ++ trail)).drop place.start).take (place.stop - place.start) =
          entry.2.spelling)
      row (spans before.length row) := by
  induction row generalizing before with
  | nil => exact .nil
  | cons entry row ih =>
      obtain ⟨lead, lexeme⟩ := entry
      obtain ⟨here, others⟩ := List.forall_mem_cons.mp nonempty
      have pos : 0 < lexeme.spelling.length := List.length_pos_iff.mpr here
      have rest := ih (before ++ (lead ++ lexeme.spelling)) others
      have behind : (before ++ (lead ++ lexeme.spelling)).length =
          before.length + lead.length + lexeme.spelling.length := by
        simp [Nat.add_assoc]
      rw [behind, List.append_assoc, List.append_assoc, ← spellAll_cons] at rest
      refine .cons ⟨Nat.lt_add_of_pos_right pos, ?_, ?_⟩ rest
      · simp only [spellAll_cons, List.length_append]
        omega
      · rw [spellAll_cons, ← List.append_assoc, ← List.length_append, List.drop_left,
          Nat.add_sub_cancel_left, List.take_left]

/-- A character of a row that is at none of its places is a blank. -/
theorem blank_of_uncovered {row : List (List Char × Lexeme)} {trail : List Char}
    (leads : ∀ entry ∈ row, ∀ c ∈ entry.1, Text.isBlank c = true)
    (trails : ∀ c ∈ trail, Text.isBlank c = true) (start i : Nat) {c : Char}
    (here : (spellAll row ++ trail)[i]? = some c) :
    (∃ place ∈ spans start row, place.start ≤ start + i ∧ start + i < place.stop) ∨
      Text.isBlank c = true := by
  induction row generalizing start i with
  | nil => exact .inr (trails c (List.mem_of_getElem? here))
  | cons entry row ih =>
      obtain ⟨lead, lexeme⟩ := entry
      obtain ⟨first, others⟩ := List.forall_mem_cons.mp leads
      rw [spellAll_cons] at here
      -- before the lexeme, in it, or behind it
      by_cases before : i < lead.length
      · rw [List.getElem?_append_left before] at here
        exact .inr (first c (List.mem_of_getElem? here))
      rw [List.getElem?_append_right (by omega)] at here
      by_cases inside : i - lead.length < lexeme.spelling.length
      · exact .inl ⟨_, List.mem_cons_self, by simp only; omega, by simp only; omega⟩
      rw [List.getElem?_append_right (by omega)] at here
      rcases ih others (start + lead.length + lexeme.spelling.length) _ here with
        ⟨place, mem, low, high⟩ | blank
      · exact .inl ⟨place, List.mem_cons_of_mem _ mem, by omega, by omega⟩
      · exact .inr blank

/-- The places of the lexemes that are read. -/
theorem placed_spans {cs trail : List Char} {row : List (List Char × Lexeme)}
    (h : readAll cs = .ok (row, trail)) : Placed cs row (spans 0 row) := by
  obtain ⟨entries, trails⟩ := forall_of_readAll
    (P := fun lexeme => lexeme.spelling ≠ []) (fun _ _ _ read => (read_append read).2) h
  have split := readAll_append h
  refine ⟨?_, pairwise_spans 0 row, ?_⟩
  · have spelled := spelled_spans [] (fun entry mem => (entries entry mem).2) trail
    rwa [List.nil_append, split] at spelled
  · intro i c here
    rw [← split] at here
    simpa using blank_of_uncovered (fun entry mem => (entries entry mem).1) trails 0 i here

/-- The inside of a tag is read by maximal munch. What is read are the rows of longest lexemes that
make up the text, a text that is no such row is refused, and the places of the lexemes that are read
are apart, in order, and cover all but blanks. -/
theorem readAll_maximal_munch (cs : List Char) :
    (∀ row trail, readAll cs = .ok (row, trail) ↔ Munched cs row trail) ∧
      ((∃ fault, readAll cs = .error fault) ↔ ∀ row trail, ¬ Munched cs row trail) ∧
      ∀ row trail, readAll cs = .ok (row, trail) → Placed cs row (spans 0 row) := by
  refine ⟨fun _ _ => readAll_eq_ok_iff, ?_, fun _ _ => placed_spans⟩
  constructor
  · rintro ⟨fault, failed⟩ row trail munched
    cases failed.symm.trans (readAll_eq_ok_iff.mpr munched)
  · intro none
    cases read : readAll cs with
    | error fault => exact ⟨fault, rfl⟩
    | ok result =>
        obtain ⟨row, trail⟩ := result
        exact (none row trail (readAll_eq_ok_iff.mp read)).elim

end SheetMarkup.Lexeme
