import SheetMarkup.Proofs.Expr.Grammar
import SheetMarkup.Proofs.Lexeme.Word

/-!
# Spelled tokens

Every token that stands inside of tags has a spelling: names and numbers are spelled as they are,
strings in double quotes with a backslash before quotes and backslashes. A spelling that blanks
follow is read as the token it was made for (`Lexeme.read_spelling`), and so is a whole row of
spellings with blanks before each of them (`Lexeme.readAll_row`).
-/

namespace SheetMarkup

namespace Lexeme

/-! ## Strings -/

namespace Literal

/-- How a character is written between double quotes. -/
def escaped (c : Char) : List Char := if c = '"' ∨ c = '\\' then ['\\', c] else [c]

/-- A text as it is written between double quotes. -/
def writtenText (cs : List Char) : List Char := cs.flatMap escaped

theorem glyph_escaped (c : Char) (rest : List Char) :
    glyph '"' (escaped c ++ rest) = .ok (⟨escaped c, some c⟩, rest) := by
  by_cases quote : c = '"'
  · subst quote
    rfl
  by_cases backslash : c = '\\'
  · subst backslash
    rfl
  simp [escaped, glyph, quote, backslash]

theorem head?_escaped_ne (c : Char) (rest : List Char) :
    (escaped c ++ rest).head? ≠ some '"' := by
  unfold escaped
  split
  · simp
  · next plain =>
    intro head
    exact plain (.inl (by simpa using head))

theorem glyphs_of_glyph {quote : Char} {cs mid rest : List Char} {g : Glyph} {gs : List Glyph}
    (inside : cs.head? ≠ some quote) (first : glyph quote cs = .ok (g, mid))
    (others : glyphs quote mid = .ok (gs, rest)) : glyphs quote cs = .ok (g :: gs, rest) := by
  rw [glyphs, if_neg inside]
  split
  · next failed => cases first.symm.trans failed
  · next found =>
    cases first.symm.trans found
    rw [others]

/-- A written text is read glyph by glyph up to the quote behind it. -/
theorem glyphs_writtenText (cs rest : List Char) :
    glyphs '"' (writtenText cs ++ '"' :: rest) =
      .ok (cs.map fun c => ⟨escaped c, some c⟩, rest) := by
  induction cs with
  | nil => rw [glyphs]; rfl
  | cons c cs ih =>
      have cons : writtenText (c :: cs) ++ '"' :: rest =
          escaped c ++ (writtenText cs ++ '"' :: rest) := by
        simp [writtenText]
      rw [cons]
      exact glyphs_of_glyph (head?_escaped_ne c _) (glyph_escaped c _) ih

theorem text?_written (cs : List Char) :
    text? (cs.map fun c => (⟨escaped c, some c⟩ : Glyph)) = some cs := by
  unfold text?
  induction cs with
  | nil => rfl
  | cons c cs ih => rw [List.map_cons, List.mapM_cons, ih]; rfl

theorem spelling_written (cs : List Char) :
    spelling '"' (cs.map fun c => ⟨escaped c, some c⟩) = '"' :: writtenText cs ++ ['"'] := by
  simp [spelling, writtenText, List.flatMap_map]

end Literal

end Lexeme

/-! ## Tokens -/

namespace Token.Kind

/-- The tokens that can be written inside of tags: identifiers, all strings, integers and symbols,
and numbers that are no 64-bit integers. -/
def Writable : Token.Kind → Prop
  | name value => IsIdentifier value
  | string _ | integer _ | symbol _ => True
  | real written =>
    Lexeme.Number.IsNumeral written.toList ∧ Text.readInt64? written.toList = none
  | text _ | opening _ | closing _ | eof => False

/-- How a token inside of a tag is written. -/
def spelling : Token.Kind → List Char
  | name value => value.toList
  | string value => '"' :: Lexeme.Literal.writtenText value.toList ++ ['"']
  | integer value => Text.signedDecimal value.toInt
  | real written => written.toList
  | symbol mark => mark.spelling.toList
  | text _ | opening _ | closing _ | eof => []

/-- How many braces are open behind a token. A closing brace without an open one closes nothing. -/
def depth (before : Nat) : Token.Kind → Nat
  | symbol .openBrace => before + 1
  | symbol .closeBrace => before - 1
  | _ => before

/-- Tokens that can be written and that close the braces they open. -/
def Balanced (ks : List Token.Kind) : Prop :=
  (∀ k ∈ ks, k.Writable) ∧ ∀ before, ks.foldl depth before = before

namespace Balanced

theorem nil : Balanced [] := ⟨by simp, fun _ => rfl⟩

theorem append {ks ks' : List Token.Kind} (h : Balanced ks) (h' : Balanced ks') :
    Balanced (ks ++ ks') := by
  refine ⟨fun k mem => ?_, fun before => ?_⟩
  · rcases List.mem_append.mp mem with mem | mem
    · exact h.1 k mem
    · exact h'.1 k mem
  · rw [List.foldl_append, h.2, h'.2]

theorem singleton {k : Token.Kind} (h : k.Writable) (openBrace : k ≠ .symbol .openBrace)
    (closeBrace : k ≠ .symbol .closeBrace) : Balanced [k] := by
  refine ⟨by simpa using h, fun before => ?_⟩
  rw [List.foldl_cons, List.foldl_nil, depth]
  · exact openBrace
  · exact closeBrace

theorem flatMap {α : Type} {as : List α} {row : α → List Token.Kind}
    (h : ∀ a ∈ as, Balanced (row a)) : Balanced (as.flatMap row) := by
  induction as with
  | nil => exact nil
  | cons a as ih =>
      rw [List.flatMap_cons]
      exact (h a (by simp)).append (ih fun b mem => h b (by simp [mem]))

theorem braces {ks : List Token.Kind} (h : Balanced ks) :
    Balanced (.symbol .openBrace :: ks ++ [.symbol .closeBrace]) := by
  refine ⟨fun k mem => ?_, fun before => ?_⟩
  · simp only [List.cons_append, List.mem_cons, List.mem_append, List.not_mem_nil,
      or_false] at mem
    rcases mem with rfl | mem | rfl
    · exact trivial
    · exact h.1 k mem
    · exact trivial
  · rw [List.cons_append, List.foldl_cons, List.foldl_append, h.2]
    rfl

end Balanced

end Token.Kind

namespace Lexeme

/-- The lexeme of a token. -/
def ofKind (kind : Token.Kind) : Lexeme := ⟨kind.spelling, kind⟩

theorem read_number {cs rest : List Char} (h : Number.IsNumeral cs) (ends : Number.Ends rest) :
    read (cs ++ rest) = .ok (⟨cs, Number.kind cs⟩, rest) := by
  have split := Number.split?_append_of h ends
  obtain ⟨c, tail, rfl, first⟩ := h.exists_eq_cons
  have noQuote := Number.ne_quote_of_begins first
  rw [List.cons_append] at split ⊢
  simp only [read, noQuote, if_false, first, if_true, split]

theorem read_identifier {name : String} (h : IsIdentifier name) {rest : List Char}
    (stop : ∀ c ∈ rest.head?, isNameChar c = false) :
    read (name.toList ++ rest) = .ok (⟨name.toList, .name name⟩, rest) := by
  obtain ⟨c, cs, eq, first, others⟩ := h
  have noQuote := ne_quote_of_isNameStart first
  have noNumber := not_number_of_isNameStart first
  obtain ⟨take, drop⟩ := takeWhile_append_stop others stop
  rw [eq, List.cons_append]
  simp only [read, noQuote, noNumber, if_false, first, if_true, take, drop, ← eq,
    String.ofList_toList]

theorem read_string (value : String) (rest : List Char) :
    read ((Token.Kind.string value).spelling ++ rest) =
      .ok (ofKind (.string value), rest) := by
  have glyphs := Literal.glyphs_writtenText value.toList rest
  simp only [Token.Kind.spelling, List.cons_append, List.append_assoc, List.nil_append, read,
    readLiteral, glyphs, Literal.text?_written, Literal.spelling_written, ofKind,
    String.ofList_toList, true_or, if_true]

theorem read_symbol (mark : Symbol) {rest : List Char} (blank : BlankLed rest) :
    read ((Token.Kind.symbol mark).spelling ++ rest) = .ok (ofKind (.symbol mark), rest) := by
  have stop : ∀ c ∈ rest.head?, isOperatorChar c = false := by
    intro c mem
    have := blank c mem
    simp only [isOperatorChar, Bool.or_eq_false_iff, beq_eq_false_iff_ne]
    constructor <;> rintro rfl <;> cases this
  have second : ∀ c ∈ ['='], isOperatorChar c = true := by simp [isOperatorChar]
  obtain ⟨take, drop⟩ := takeWhile_append_stop second stop
  -- only the two comparisons are longer than one character
  cases mark with
  | equal =>
      change read ('=' :: (['='] ++ rest)) = _
      simp only [read, take, drop]
      rfl
  | unequal =>
      change read ('!' :: (['='] ++ rest)) = _
      simp only [read, take, drop]
      rfl
  | _ => rfl

/-- What is written and followed by blanks is read as what was written. -/
theorem read_spelling {kind : Token.Kind} (h : kind.Writable) {rest : List Char}
    (blank : BlankLed rest) : read (kind.spelling ++ rest) = .ok (ofKind kind, rest) := by
  have ends := Number.ends_of_blankLed blank
  cases kind with
  | name value => exact read_identifier h fun c mem => isNameChar_of_isBlank (blank c mem)
  | string value => exact read_string value rest
  | symbol mark => exact read_symbol mark blank
  | integer value =>
      -- the text of a 64-bit integer is a number that fits, that of a real one is not
      have number := Number.isNumeral_signedDecimal value.toInt
      rw [Token.Kind.spelling, read_number number ends, Number.kind,
        Text.readInt64?_signedDecimal]
      rfl
  | real written =>
      rw [Token.Kind.spelling, read_number h.1 ends, Number.kind, h.2, String.ofList_toList]
      rfl
  | text | opening | closing | eof => exact absurd h id

/-! ## Rows -/

/-- No spelling is empty or begins with a blank. -/
theorem exists_spelling_eq_cons {kind : Token.Kind} (h : kind.Writable) :
    ∃ c cs, kind.spelling = c :: cs ∧ Text.isBlank c = false := by
  have number : ∀ cs, Number.IsNumeral cs →
      ∃ c rest, cs = c :: rest ∧ Text.isBlank c = false := by
    intro cs numeral
    obtain ⟨c, rest, eq, rfl | digit⟩ := numeral.exists_eq_cons
    · exact ⟨_, rest, eq, rfl⟩
    · obtain ⟨low, high⟩ := Text.toNat_of_isDigit digit
      exact ⟨c, rest, eq, Text.isBlank_eq_false (by omega) (by omega)⟩
  cases kind with
  | name value =>
      obtain ⟨c, cs, eq, first, -⟩ := h
      obtain ⟨low, high⟩ := toNat_of_isNameStart first
      exact ⟨c, cs, eq, Text.isBlank_eq_false (by omega) (by omega)⟩
  | string value => exact ⟨'"', _, rfl, rfl⟩
  | integer value => exact number _ (Number.isNumeral_signedDecimal value.toInt)
  | real written => exact number _ h.1
  | symbol mark => cases mark <;> exact ⟨_, _, rfl, rfl⟩
  | text | opening | closing | eof => exact absurd h id

/-- Tokens, each with the blanks before it, as lexemes. -/
def ofRow (row : List (List Char × Token.Kind)) : List (List Char × Lexeme) :=
  row.map fun entry => (entry.1, ofKind entry.2)

/-- A row of tokens that can be written, with at least one blank before each of them. -/
def WritableRow (row : List (List Char × Token.Kind)) : Prop :=
  ∀ entry ∈ row, Blanks entry.1 ∧ entry.2.Writable

theorem spellAll_ofRow_cons (lead : List Char) (kind : Token.Kind)
    (row : List (List Char × Token.Kind)) (trail : List Char) :
    spellAll (ofRow ((lead, kind) :: row)) ++ trail =
      lead ++ (kind.spelling ++ (spellAll (ofRow row) ++ trail)) := by
  simp [spellAll, ofRow, ofKind]

theorem blankLed_spellAll {row : List (List Char × Token.Kind)} (h : WritableRow row)
    {trail : List Char} (blank : BlankLed trail) : BlankLed (spellAll (ofRow row) ++ trail) := by
  cases row with
  | nil => exact blank
  | cons entry row =>
      rw [spellAll_ofRow_cons]
      exact (h entry (by simp)).1.blankLed _

theorem blankLed_of_forall {cs : List Char} (h : ∀ c ∈ cs, Text.isBlank c = true) :
    BlankLed cs := fun c mem => h c (List.mem_of_mem_head? mem)

/-- A text is read lexeme by lexeme, each with the blanks before it. -/
theorem readAll_of_read {lead body rest trail : List Char} {lexeme : Lexeme}
    {more : List (List Char × Lexeme)} (blanks : ∀ c ∈ lead, Text.isBlank c = true)
    (stop : ∀ c ∈ body.head?, Text.isBlank c = false) (first : read body = .ok (lexeme, rest))
    (others : readAll rest = .ok (more, trail)) :
    readAll (lead ++ body) = .ok ((lead, lexeme) :: more, trail) := by
  obtain ⟨take, drop⟩ := takeWhile_append_stop blanks stop
  have nonempty : body ≠ [] := by
    rintro rfl
    cases first
  rw [readAll]
  simp only [take]
  rw [if_neg (by rwa [drop])]
  split
  · next failed =>
    rw [drop] at failed
    cases first.symm.trans failed
  · next read =>
    rw [drop] at read
    cases first.symm.trans read
    rw [others]

/-- All that is left are blanks, so there is no further lexeme. -/
theorem readAll_blanks {trail : List Char} (blanks : ∀ c ∈ trail, Text.isBlank c = true) :
    readAll trail = .ok ([], trail) := by
  have stop : ∀ c ∈ ([] : List Char).head?, Text.isBlank c = false := by simp
  obtain ⟨take, drop⟩ := takeWhile_append_stop blanks stop
  rw [List.append_nil] at take drop
  rw [readAll]
  simp only [take, drop, if_true]

/-- A row of spellings is read as the row of its tokens. -/
theorem readAll_row {row : List (List Char × Token.Kind)} (h : WritableRow row)
    {trail : List Char} (blanks : ∀ c ∈ trail, Text.isBlank c = true) :
    readAll (spellAll (ofRow row) ++ trail) = .ok (ofRow row, trail) := by
  induction row with
  | nil =>
      change readAll trail = _
      exact readAll_blanks blanks
  | cons entry row ih =>
      obtain ⟨lead, kind⟩ := entry
      obtain ⟨⟨-, leadBlanks⟩, writable⟩ : Blanks lead ∧ kind.Writable :=
        h (lead, kind) (by simp)
      have others : WritableRow row := fun entry mem => h entry (by simp [mem])
      obtain ⟨c, cs, eq, first⟩ := exists_spelling_eq_cons writable
      have read_first := read_spelling writable
        (blankLed_spellAll others (blankLed_of_forall blanks))
      -- the blanks before a token end where its spelling begins
      have stop : ∀ d ∈ (kind.spelling ++ (spellAll (ofRow row) ++ trail)).head?,
          Text.isBlank d = false := by
        simp [eq, first]
      rw [spellAll_ofRow_cons]
      exact readAll_of_read leadBlanks stop read_first (ih others)

end Lexeme

end SheetMarkup
