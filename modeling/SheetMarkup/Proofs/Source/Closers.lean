import Mathlib
import SheetMarkup.Proofs.Lexeme.Spelled
import SheetMarkup.Proofs.Source.Segmentation

/-!
# The search for a closer agrees with the lexemes

The closer of a tag is searched for character by character, with a count of braces and a flag for
quotes, before the inside of the tag is read as lexemes. The two agree: if some text can be read as
lexemes with matching braces and a closer follows it, the search passes the text lexeme by lexeme
(`Nesting.split?_spelled`, `Nesting.split?_spellAll`) and ends at that closer. A closer inside of a
string or at the end of nested hashes is passed with its lexeme, and no other part of the source
could be the inside of the tag. Main result: `splitCloser?_of_readAll`.
-/

namespace SheetMarkup

open Token (Kind)

/-! ## Braces -/

namespace Token.Kind

/-- How many braces are open behind a token. One that is not open cannot be closed. -/
def braces? (before : Nat) : Kind → Option Nat
  | symbol .openBrace => some (before + 1)
  | symbol .closeBrace => if before = 0 then none else some (before - 1)
  | _ => some before

/-- Tokens whose braces match: no brace is closed that is not open, and none is left open. -/
def BracesMatch (ks : List Kind) : Prop := ks.foldlM braces? 0 = some 0

theorem braces?_number (cs : List Char) (before : Nat) :
    (Lexeme.Number.kind cs).braces? before = some before := by
  unfold Lexeme.Number.kind
  split <;> rfl

end Token.Kind

/-! ## The search passes lexemes -/

namespace Nesting

variable (form : TagForm) (depth : Nat)

/-- A search passes the rest of a literal, whatever stands in it. -/
theorem split?_literalBody {quote : Char} (isQuote : quote ∈ ['"', '\'']) {body : List Char}
    (h : LiteralBody quote body) (rest : List Char) :
    split? form.closer.toList (quoted quote depth) (body ++ quote :: rest) =
      passed (body ++ [quote]) (split? form.closer.toList (bare depth) rest) := by
  have noEscape : quote ≠ '\\' := by
    rintro rfl
    revert isQuote
    decide
  induction h with
  | nil =>
      have ends : (quoted quote depth).next quote = bare depth := by simp [next, noEscape]
      rw [List.nil_append, split?_cons_quoted, ends]
      rfl
  | @plain c cs noEnd plain _ ih =>
      have stays : (quoted quote depth).next c = quoted quote depth := by
        simp [next, noEnd, plain]
      rw [List.cons_append, split?_cons_quoted, stays, ih, passed_passed]
      rfl
  | @escape c cs _ ih =>
      -- the backslash takes the character behind it along
      have backslash : (quoted quote depth).next '\\' = escaped quote depth := rfl
      rw [List.cons_append, List.cons_append, split?_cons_quoted, backslash, split?_cons_escaped,
        ih, passed_passed, passed_passed]
      rfl

theorem split?_literal {quote : Char} (isQuote : quote ∈ ['"', '\'']) {body : List Char}
    (h : LiteralBody quote body) (rest : List Char) :
    split? form.closer.toList (bare depth) (quote :: body ++ quote :: rest) =
      passed (quote :: body ++ [quote]) (split? form.closer.toList (bare depth) rest) := by
  have noCloser : quote ∉ ['}', '%'] := by
    simp only [List.mem_cons, List.not_mem_nil, or_false] at isQuote
    rcases isQuote with rfl | rfl <;> decide
  have begins : (bare depth).next quote = quoted quote depth := by
    simp only [List.mem_cons, List.not_mem_nil, or_false] at isQuote
    simp [next, isQuote]
  rw [List.cons_append, split?_cons_of_notMem form _ noCloser, begins,
    split?_literalBody form depth isQuote h, passed_passed]
  rfl

theorem split?_symbol {mark : Symbol} {after : Nat}
    (step : (Kind.symbol mark).braces? depth = some after) (rest : List Char) :
    split? form.closer.toList (bare depth) (mark.spelling.toList ++ rest) =
      passed mark.spelling.toList (split? form.closer.toList (bare after) rest) := by
  cases mark with
  | openBrace =>
      cases step
      exact split?_cons_of_notMem form _ (by decide) rest
  | closeBrace =>
      -- the brace that it closes is still open, so no closer is looked for here
      simp only [Kind.braces?] at step
      split at step
      · cases step
      · next inside =>
        cases step
        exact split?_cons_of fun h => inside (Nesting.bare.inj h.1)
  | _ =>
      cases step
      exact split?_quiet (by simp [Quiet, Symbol.spelling]) form depth rest

/-- A search passes a lexeme, whatever stands behind it, and counts its braces. -/
theorem split?_spelled {lexeme : Lexeme} (h : lexeme.Spelled) {after : Nat}
    (step : lexeme.kind.braces? depth = some after) (rest : List Char) :
    split? form.closer.toList (bare depth) (lexeme.spelling ++ rest) =
      passed lexeme.spelling (split? form.closer.toList (bare after) rest) := by
  cases h with
  | literal _ isQuote body =>
      cases step
      rw [List.append_assoc]
      exact split?_literal form depth isQuote body rest
  | @number cs numeral =>
      cases (Kind.braces?_number cs depth).symm.trans step
      exact split?_quiet (quiet_of_isNumeral numeral) form depth rest
  | name identifier =>
      cases step
      have quiet := quiet_of_isIdentifier identifier
      rw [String.toList_ofList] at quiet
      exact split?_quiet quiet form depth rest
  | symbol mark => exact split?_symbol form depth step rest

/-- A search passes a row of lexemes with blanks before them, and counts their braces. -/
theorem split?_spellAll {row : List (List Char × Lexeme)}
    (spelled : ∀ entry ∈ row, (∀ c ∈ entry.1, Text.isBlank c = true) ∧ entry.2.Spelled)
    {final : Nat}
    (counted : (row.map fun entry => entry.2.kind).foldlM Kind.braces? depth = some final)
    (rest : List Char) :
    split? form.closer.toList (bare depth) (Lexeme.spellAll row ++ rest) =
      passed (Lexeme.spellAll row) (split? form.closer.toList (bare final) rest) := by
  induction row generalizing depth with
  | nil =>
      cases counted
      rw [Lexeme.spellAll, List.flatMap_nil, passed_nil]
      rfl
  | cons entry row ih =>
      obtain ⟨lead, lexeme⟩ := entry
      obtain ⟨blanks, first⟩ := spelled (lead, lexeme) (by simp)
      rw [List.map_cons, List.foldlM_cons, Option.bind_eq_bind,
        Option.bind_eq_some_iff] at counted
      obtain ⟨after, step, others⟩ := counted
      have shape : Lexeme.spellAll ((lead, lexeme) :: row) ++ rest =
          lead ++ (lexeme.spelling ++ (Lexeme.spellAll row ++ rest)) := by
        simp [Lexeme.spellAll]
      rw [shape, split?_quiet fun c mem => quiet_of_isBlank (blanks c mem),
        split?_spelled form depth first step,
        ih after (fun entry mem => spelled entry (by simp [mem])) others, passed_passed,
        passed_passed]
      simp [Lexeme.spellAll]

end Nesting

/-! ## Tags -/

theorem Tag.quiet_dash (present : Bool) : ∀ c ∈ dash present, Nesting.Quiet c := by
  cases present <;> simp [dash, Nesting.Quiet]

variable (form : TagForm) {x trail : List Char} {row : List (List Char × Lexeme)}

/-- Behind lexemes with matching braces, the search ends at the closer that follows. -/
theorem splitCloser?_spelled (read : Lexeme.readAll x = .ok (row, trail))
    (matched : Kind.BracesMatch (row.map fun entry => entry.2.kind)) (closeDash : Bool)
    (after : List Char) :
    (Opener.tag form).splitCloser? (x ++ Tag.dash closeDash ++ form.closer.toList ++ after) =
      some (x ++ Tag.dash closeDash, after) := by
  obtain ⟨spelled, blanks⟩ := Lexeme.spelled_of_readAll read
  have shape : x ++ Tag.dash closeDash ++ form.closer.toList ++ after =
      Lexeme.spellAll row ++ (trail ++ (Tag.dash closeDash ++ (form.closer.toList ++ after))) := by
    rw [← Lexeme.readAll_append read]
    simp
  rw [shape, Opener.splitCloser?]
  change Nesting.split? form.closer.toList (.bare 0) _ = _
  -- past the lexemes, the blanks and the minus sign, no brace is open any more
  rw [Nesting.split?_spellAll form 0 spelled matched,
    Nesting.split?_quiet fun c mem => Nesting.quiet_of_isBlank (blanks c mem),
    Nesting.split?_quiet (Tag.quiet_dash closeDash), Nesting.split?_closer,
    Nesting.passed_passed, Nesting.passed_passed]
  simp [Nesting.passed, ← Lexeme.readAll_append read]

/-- The sign before the closer is told from the lexemes before it. -/
theorem splitEndDash_spelled (read : Lexeme.readAll x = .ok (row, trail)) (closeDash : Bool) :
    Tag.splitEndDash (x ++ Tag.dash closeDash) = (x, closeDash) :=
  Tag.splitEndDash_eq_iff.mpr ⟨rfl, fun _ => Lexeme.getLast?_ne_of_readAll read⟩

/-- If a text that can be read as lexemes with matching braces is followed by a minus sign or none
and then by the closer of a tag, the search for the closer ends there. The tag around it has the
text as its inside and the tokens of the lexemes between its delimiters, and no other text followed
by a closer could be read there. -/
theorem splitCloser?_of_readAll (read : Lexeme.readAll x = .ok (row, trail))
    (matched : Kind.BracesMatch (row.map fun entry => entry.2.kind)) (closeDash : Bool)
    (after : List Char) :
    (Opener.tag form).splitCloser? (x ++ Tag.dash closeDash ++ form.closer.toList ++ after) =
        some (x ++ Tag.dash closeDash, after) ∧
      (∀ text openDash,
        Tag.splitDash text =
            (openDash, x ++ Tag.dash closeDash ++ form.closer.toList ++ after) →
          Tag.read? (.tag form) text = some (⟨.tag form, openDash, x, closeDash⟩, after) ∧
          ∀ line, (⟨.tag form, openDash, x, closeDash⟩ : Tag).tokens line =
            .ok (⟨.opening form, line⟩ :: Lexeme.tokens line row ++
              [⟨.closing form, line + Text.lineFeeds x⟩])) ∧
      ∀ x' row' trail' closeDash' after', Lexeme.readAll x' = .ok (row', trail') →
        Kind.BracesMatch (row'.map fun entry => entry.2.kind) →
        x' ++ Tag.dash closeDash' ++ form.closer.toList ++ after' =
          x ++ Tag.dash closeDash ++ form.closer.toList ++ after →
        x' = x ∧ closeDash' = closeDash ∧ after' = after := by
  have found := splitCloser?_spelled form read matched closeDash after
  have ends := splitEndDash_spelled read closeDash
  refine ⟨found, ?_, ?_⟩
  · intro text openDash begins
    refine ⟨?_, fun line => ?_⟩
    · simp only [Tag.read?, begins, found, ends, Option.bind_eq_bind, Option.bind_some]
      rfl
    · simp only [Tag.tokens, read]
  · intro x' row' trail' closeDash' after' read' matched' same
    -- both searches go through one text, so they end in one place
    have found' := splitCloser?_spelled form read' matched' closeDash' after'
    rw [same, found, Option.some.injEq, Prod.mk.injEq] at found'
    obtain ⟨inside, rest⟩ := found'
    have ends' := splitEndDash_spelled read' closeDash'
    rw [← inside, ends, Prod.mk.injEq] at ends'
    exact ⟨ends'.1.symm, ends'.2.symm, rest.symm⟩

/-- A string in which an escaped quote and two braces stand, and a hash in a hash. -/
theorem splitCloser?_of_readAll_nested :
    ∃ row trail, Lexeme.readAll "'\\'\x7d\x7d'\x7ba:\x7bb:1\x7d\x7d".toList = .ok (row, trail) ∧
      Kind.BracesMatch (row.map fun entry => entry.2.kind) ∧
      Tag.read? (.tag .output) "-'\\'\x7d\x7d'\x7ba:\x7bb:1\x7d\x7d-\x7d\x7dz".toList =
        some (⟨.tag .output, true, "'\\'\x7d\x7d'\x7ba:\x7bb:1\x7d\x7d".toList, true⟩, ['z']) := by
  have literal : Lexeme.read "'\\'\x7d\x7d'\x7ba:\x7bb:1\x7d\x7d".toList =
      .ok (⟨"'\\'\x7d\x7d'".toList, .string "'\x7d\x7d"⟩, "\x7ba:\x7bb:1\x7d\x7d".toList) := by
    cbv
  obtain ⟨more, trail, hash, matched⟩ : ∃ more trail,
      Lexeme.readAll "\x7ba:\x7bb:1\x7d\x7d".toList = .ok (more, trail) ∧
        Kind.BracesMatch (.string "'\x7d\x7d" :: more.map fun entry => entry.2.kind) :=
    ⟨_, _, by cbv, by cbv⟩
  have read := Lexeme.readAll_of_read (List.forall_mem_nil _) (by simp [Text.isBlank]) literal hash
  exact ⟨_, _, read, matched,
    ((splitCloser?_of_readAll .output read matched true ['z']).2.1 _ true rfl).1⟩

end SheetMarkup
