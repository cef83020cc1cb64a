import SheetMarkup.Proofs.Lexeme.Writable
import SheetMarkup.Proofs.Source.Segmentation

/-!
# How lexemes are spelled

A lexeme that was read is spelled as its kind asks for, whatever stood behind it: a literal between
two quotes that no character in it is mistaken for, a numeral, an identifier or a symbol
(`Lexeme.spelled_of_read`). So a text that can be read consists of such spellings with blanks beside
them (`Lexeme.spelled_of_readAll`), and it never ends with a minus sign
(`Lexeme.getLast?_ne_of_readAll`).
-/

namespace SheetMarkup

/-! ## Literals -/

/-- Characters that neither end a literal nor escape anything may stand in front of its body. -/
theorem LiteralBody.append {quote : Char} {run body : List Char}
    (plain : ∀ c ∈ run, c ≠ quote ∧ c ≠ '\\') (h : LiteralBody quote body) :
    LiteralBody quote (run ++ body) := by
  induction run with
  | nil => exact h
  | cons c run ih =>
      obtain ⟨noEnd, noEscape⟩ := plain c (by simp)
      exact .plain noEnd noEscape (ih fun d mem => plain d (by simp [mem]))

namespace Lexeme

namespace Literal

theorem ne_of_isHexDigit {c : Char} (h : isHexDigit c = true) : c ∉ ['"', '\'', '\\'] := by
  simp only [List.mem_cons, List.not_mem_nil, or_false]
  rintro (rfl | rfl | rfl) <;> revert h <;> decide

theorem isHexDigit_of_mem_code {cs : List Char} : ∀ c ∈ code cs, isHexDigit c = true :=
  List.all_eq_true.mp List.all_takeWhile

/-- The glyph that is read inside of a literal goes on with its body. -/
theorem literalBody_glyph {quote : Char} (isQuote : quote ∈ ['"', '\'']) {cs rest body : List Char}
    {g : Glyph} (inside : cs.head? ≠ some quote) (read : glyph quote cs = .ok (g, rest))
    (h : LiteralBody quote body) : LiteralBody quote (g.spelling ++ body) := by
  unfold glyph at read
  split at read
  · cases read
  · next c cs =>
    have noEnd : c ≠ quote := fun same => inside (by rw [same]; rfl)
    split at read
    · next noEscape =>
      cases read
      exact .plain noEnd noEscape h
    · next escape =>
      have backslash : c = '\\' := Decidable.not_not.mp escape
      subst backslash
      split at read
      · cases read
      · next _ cs =>
        split at read
        · cases read
          -- the digits of a code are no quotes and escape nothing
          refine .escape 'u' (h.append fun d mem => ?_)
          have digit := ne_of_isHexDigit (isHexDigit_of_mem_code d mem)
          simp only [List.mem_cons, List.not_mem_nil, or_false, not_or] at digit isQuote
          exact ⟨by rcases isQuote with rfl | rfl <;> simp [digit], digit.2.2⟩
        · cases read
      · split at read
        · cases read
          exact .escape _ h
        · cases read

/-- The glyphs that are read up to the closing quote are the body of a literal. -/
theorem literalBody_glyphs {quote : Char} (isQuote : quote ∈ ['"', '\'']) {cs rest : List Char}
    {gs : List Glyph} (h : glyphs quote cs = .ok (gs, rest)) :
    LiteralBody quote (gs.flatMap Glyph.spelling) := by
  fun_induction glyphs quote cs generalizing gs with
  | case1 =>
      cases h
      exact .nil
  | case2 => cases h
  | case3 => cases h
  | case4 cs inside g mid first gs' rest' others ih =>
      cases h
      rw [List.flatMap_cons]
      exact literalBody_glyph isQuote inside first (ih others)

end Literal

/-! ## Symbols -/

theorem spelling_of_operator? {cs : List Char} {mark : Symbol} (h : operator? cs = some mark) :
    cs = mark.spelling.toList := by
  unfold operator? at h
  split at h
  · cases h
    rfl
  · cases h
    rfl
  · cases h

theorem spelling_of_ofChar? {c : Char} {mark : Symbol} (h : Symbol.ofChar? c = some mark) :
    [c] = mark.spelling.toList := by
  unfold Symbol.ofChar? at h
  split at h <;> cases h <;> rfl

/-! ## Lexemes -/

/-- The lexemes that are spelled as their kind asks for. -/
inductive Spelled : Lexeme → Prop
  | literal {quote : Char} {body : List Char} (value : String) : quote ∈ ['"', '\''] →
      LiteralBody quote body → Spelled ⟨quote :: body ++ [quote], .string value⟩
  | number {cs : List Char} : Number.IsNumeral cs → Spelled ⟨cs, Number.kind cs⟩
  | name {cs : List Char} : IsIdentifier (String.ofList cs) → Spelled ⟨cs, .name (String.ofList cs)⟩
  | symbol (mark : Symbol) : Spelled ⟨mark.spelling.toList, .symbol mark⟩

/-- A lexeme that is read is spelled as its kind asks for. -/
theorem spelled_of_read {cs rest : List Char} {lexeme : Lexeme}
    (h : read cs = .ok (lexeme, rest)) : lexeme.Spelled := by
  cases scanned_of_read h with
  | literal value isQuote inside =>
      exact .literal value isQuote (Literal.literalBody_glyphs isQuote inside)
  | number split => exact .number (Number.isNumeral_of_split? split)
  | name start spelling =>
      subst spelling
      exact .name ⟨_, _, String.toList_ofList, start, List.all_eq_true.mp List.all_takeWhile⟩
  | operator operator =>
      rw [spelling_of_operator? operator]
      exact .symbol _
  | mark _ mark =>
      rw [spelling_of_ofChar? mark]
      exact .symbol _

/-- A text that can be read consists of spelled lexemes with blanks beside them. -/
theorem spelled_of_readAll {cs trail : List Char} {row : List (List Char × Lexeme)}
    (h : readAll cs = .ok (row, trail)) :
    (∀ entry ∈ row, (∀ c ∈ entry.1, Text.isBlank c = true) ∧ entry.2.Spelled) ∧
      ∀ c ∈ trail, Text.isBlank c = true :=
  forall_of_readAll (fun _ _ _ => spelled_of_read) h

/-! ## Ends -/

/-- A text that does not end with a minus sign. -/
def NoEndDash (cs : List Char) : Prop := cs.getLast? ≠ some '-'

namespace NoEndDash

theorem append {a b : List Char} (h : NoEndDash a) (h' : NoEndDash b) : NoEndDash (a ++ b) := by
  unfold NoEndDash at h h' ⊢
  rw [List.getLast?_append]
  cases last : b.getLast? with
  | none => simpa using h
  | some c =>
      rw [last] at h'
      simpa using h'

theorem of_notMem {cs : List Char} (h : '-' ∉ cs) : NoEndDash cs :=
  fun last => h (List.mem_of_getLast? last)

theorem of_isDigits {ds : List Char} (h : Number.IsDigits ds) (before : List Char) :
    NoEndDash (before ++ ds) := by
  obtain ⟨init, d, rfl⟩ := (List.eq_nil_or_concat ds).resolve_left h.1
  have digit := h.2 d (by simp)
  intro last
  rw [List.concat_eq_append, ← List.append_assoc, List.getLast?_concat] at last
  cases last
  revert digit
  decide

end NoEndDash

/-- A numeral ends with a digit. -/
theorem Number.IsNumeral.noEndDash {cs : List Char} (h : Number.IsNumeral cs) : NoEndDash cs := by
  obtain ⟨s, w, f, e, rfl, -, isWhole, isFraction, isExponent⟩ := h
  have whole : NoEndDash (s ++ w) := by
    rcases isWhole with rfl | ⟨d, ds, rfl, -, digits⟩
    · exact .of_isDigits ⟨List.cons_ne_nil _ _, List.forall_mem_singleton.mpr rfl⟩ s
    · exact .of_isDigits digits s
  have fraction : NoEndDash f := by
    rcases isFraction with rfl | ⟨ds, rfl, digits⟩
    · exact .of_notMem (by simp)
    · exact .of_isDigits digits ['.']
  refine (whole.append fraction).append ?_
  rcases isExponent with rfl | ⟨mark, sign, ds, rfl, -, -, digits⟩
  · exact .of_notMem (by simp)
  · exact .of_isDigits digits (mark :: sign)

theorem Spelled.noEndDash {lexeme : Lexeme} (h : lexeme.Spelled) : NoEndDash lexeme.spelling := by
  cases h with
  | @literal quote body _ isQuote =>
      intro last
      rw [List.getLast?_concat] at last
      cases last
      revert isQuote
      decide
  | number numeral => exact numeral.noEndDash
  | @name cs identifier =>
      apply NoEndDash.of_notMem
      intro mem
      have char := identifier.isNameChar_of_mem '-' (by simpa using mem)
      revert char
      decide
  | symbol mark => cases mark <;> exact .of_notMem (by decide)

/-- A text that can be read does not end with a minus sign. -/
theorem getLast?_ne_of_readAll {cs trail : List Char} {row : List (List Char × Lexeme)}
    (h : readAll cs = .ok (row, trail)) : NoEndDash cs := by
  have blank : ∀ {cs : List Char}, (∀ c ∈ cs, Text.isBlank c = true) → NoEndDash cs := by
    intro cs blanks
    refine .of_notMem fun mem => ?_
    have dash := blanks '-' mem
    revert dash
    decide
  obtain ⟨entries, after⟩ := spelled_of_readAll h
  rw [← readAll_append h]
  refine NoEndDash.append ?_ (blank after)
  clear h
  induction row with
  | nil => exact .of_notMem (by simp [spellAll])
  | cons entry row ih =>
      obtain ⟨lead, spelled⟩ := entries entry (by simp)
      have first : NoEndDash (entry.1 ++ entry.2.spelling) := (blank lead).append spelled.noEndDash
      exact first.append (ih fun other mem => entries other (by simp [mem]))

end Lexeme

end SheetMarkup
