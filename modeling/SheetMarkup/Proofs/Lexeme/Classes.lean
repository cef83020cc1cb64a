import SheetMarkup.Proofs.Lexeme.Spelled

/-!
# Classes of lexemes

Lexemes come in five classes: numbers, names, punctuation marks, operators and literals. What the
lexemes of a class look like (`Lexeme.Class.Shape`), and which tokens they spell
(`Lexeme.Class.Value`), is said here without regard to how they are read. The reader takes the
longest lexeme of a class that a text begins with, and fails if there is none
(`Lexeme.read_eq_ok_iff`).

The first character of a text tells the class (`Lexeme.Class.of?`), so this is shown for each class
on its own. Of a number only the last part can be longer than asked for
(`Lexeme.Number.parts_longest`); names and operators are runs of characters of one sort
(`Lexeme.longest_run_iff`); a literal ends with the quote that closes it
(`Lexeme.Literal.longest_iff`).
-/

namespace SheetMarkup

/-! ## Machine integers -/

namespace Text

/-- A text denotes a machine integer: digits for its value, with a minus sign before them or not. -/
def Denotes (cs : List Char) (v : Int64) : Prop :=
  ∃ ds, Lexeme.Number.IsDigits ds ∧
    (cs = ds ∧ v.toInt = value 10 ds ∨ cs = '-' :: ds ∧ v.toInt = -(value 10 ds : Int))

theorem int64?_eq_some_iff {n : Int} {v : Int64} : int64? n = some v ↔ v.toInt = n := by
  constructor
  · intro h
    unfold int64? at h
    split at h
    · next fits =>
      cases h
      exact Int64.toInt_ofInt_of_le fits.1 (Int.lt_add_one_of_le fits.2)
    · cases h
  · rintro rfl
    exact int64?_toInt v

/-- The texts that are read as machine integers are those that denote them. -/
theorem readInt64?_eq_some_iff {cs : List Char} {v : Int64} :
    readInt64? cs = some v ↔ Denotes cs v := by
  have digits (ds : List Char) :
      (ds ≠ [] ∧ ds.all Char.isDigit) ↔ Lexeme.Number.IsDigits ds := by
    simp [Lexeme.Number.IsDigits]
  constructor
  · intro h
    unfold readInt64? at h
    split at h
    · next ds =>
      split at h
      · next all => exact ⟨ds, (digits ds).mp all, .inr ⟨rfl, int64?_eq_some_iff.mp h⟩⟩
      · cases h
    · next ds _ =>
      split at h
      · next all => exact ⟨cs, (digits cs).mp all, .inl ⟨rfl, int64?_eq_some_iff.mp h⟩⟩
      · cases h
  · rintro ⟨ds, all, ⟨rfl, value⟩ | ⟨rfl, value⟩⟩
    · have noSign : ∀ behind, cs ≠ '-' :: behind := by
        rintro behind rfl
        have dash := all.2 '-' (by simp)
        revert dash
        decide
      rw [readInt64?.eq_2 _ noSign, if_pos ((digits cs).mpr all)]
      exact int64?_eq_some_iff.mpr value
    · rw [readInt64?, if_pos ((digits ds).mpr all)]
      exact int64?_eq_some_iff.mpr value

end Text

namespace Lexeme

/-! ## Longest beginnings -/

/-- A text begins with a spelling of some shape and goes on with `rest`, and no longer beginning of
the text has that shape. -/
structure Longest (Shape : List Char → Prop) (cs spelling rest : List Char) : Prop where
  split : spelling ++ rest = cs
  shape : Shape spelling
  longest : ∀ other, other <+: cs → Shape other → other.length ≤ spelling.length

namespace Longest

variable {Shape : List Char → Prop} {cs spelling rest spelling' rest' : List Char}

theorem unique (h : Longest Shape cs spelling rest) (h' : Longest Shape cs spelling' rest') :
    spelling = spelling' ∧ rest = rest' := by
  have le := h'.longest spelling ⟨rest, h.split⟩ h.shape
  have ge := h.longest spelling' ⟨rest', h'.split⟩ h'.shape
  exact List.append_inj (h.split.trans h'.split.symm) (Nat.le_antisymm le ge)

theorem iff_of (h : Longest Shape cs spelling rest) :
    Longest Shape cs spelling' rest' ↔ spelling' = spelling ∧ rest' = rest := by
  constructor
  · exact fun other => other.unique h
  · rintro ⟨rfl, rfl⟩
    exact h

end Longest

/-! ## Numbers -/

namespace Number

/-- What is split off as a whole part is no shorter than any whole part that the text begins
with. -/
theorem whole?_longest {w : List Char} (h : IsWhole w) (rest : List Char) :
    ∃ w' rest', whole? (w ++ rest) = some (w', rest') ∧ w.length ≤ w'.length := by
  rcases h with rfl | ⟨d, ds, rfl, nonzero, -, digits⟩
  · exact ⟨['0'], rest, rfl, Nat.le_refl _⟩
  · obtain ⟨digit, digits⟩ := List.forall_mem_cons.mp digits
    simp only [List.cons_append, whole?, nonzero, if_false, digit, if_true,
      List.takeWhile_append_of_pos digits]
    exact ⟨_, _, rfl, by simp⟩

theorem fraction_longest {f : List Char} (h : IsFraction f) (rest : List Char) :
    f.length ≤ (fraction (f ++ rest)).1.length := by
  rcases h with rfl | ⟨ds, rfl, ne, digits⟩
  · exact Nat.zero_le _
  · simp [fraction, List.takeWhile_append_of_pos digits, ne]

theorem exponent_longest {e : List Char} (h : IsExponent e) (rest : List Char) :
    e.length ≤ (exponent (e ++ rest)).1.length := by
  rcases h with rfl | ⟨m, s, ds, rfl, isMark, isSign, ds_digits⟩
  · exact Nat.zero_le _
  · have signs : s = [] ∨ ∃ c ∈ ['+', '-'], s = [c] := by simpa [or_comm] using isSign
    have split : sign ['+', '-'] (s ++ (ds ++ rest)) = (s, ds ++ rest) :=
      sign_append_of signs (head_notMem_of_isDigits ds_digits (by simp))
    have mark : m ∈ exponentMarks := isMark
    simp [exponent, split, List.takeWhile_append_of_pos ds_digits.2, ds_digits.1, mark]

/-- Only the last part of a number can be longer than asked for: the parts before it end where it
begins. -/
theorem parts_longest {w f e : List Char} (isWhole : IsWhole w) (isFraction : IsFraction f)
    (isExponent : IsExponent e) (rest : List Char) :
    ∃ w' rest', whole? (w ++ (f ++ (e ++ rest))) = some (w', rest') ∧
      w.length + f.length + e.length ≤
        w'.length + (fraction rest').1.length + (exponent (fraction rest').2).1.length := by
  by_cases noExponent : e = []
  · by_cases noFraction : f = []
    · subst noExponent noFraction
      obtain ⟨w', rest', split, le⟩ := whole?_longest isWhole rest
      refine ⟨w', rest', split, ?_⟩
      simp only [List.length_nil]
      omega
    · subst noExponent
      refine ⟨w, _, whole?_append_of isWhole (isFraction.noDigit (absurd · noFraction)), ?_⟩
      have le := fraction_longest isFraction rest
      simp only [List.length_nil, List.nil_append]
      omega
  · obtain ⟨stop, point⟩ := isExponent.behind rest (absurd · noExponent)
    refine ⟨w, _, whole?_append_of isWhole (isFraction.noDigit fun _ => stop), ?_⟩
    rw [fraction_append_of isFraction stop point]
    exact Nat.add_le_add_left (exponent_longest isExponent rest) _

/-- What is split off as a number is no shorter than any numeral that the text begins with. -/
theorem split?_longest {cs : List Char} (h : IsNumeral cs) (rest : List Char) :
    ∃ spelling rest', split? (cs ++ rest) = some (spelling, rest') ∧
      cs.length ≤ spelling.length := by
  obtain ⟨s, w, f, e, rfl, isSign, isWhole, isFraction, isExponent⟩ := h
  obtain ⟨w', rest', whole, le⟩ := parts_longest isWhole isFraction isExponent rest
  simp only [split?, List.append_assoc, sign_append_whole isSign isWhole, whole,
    Option.bind_eq_bind, Option.bind_some]
  refine ⟨_, _, rfl, ?_⟩
  simp only [List.length_append]
  omega

/-- What is split off is the longest numeral that a text begins with. -/
theorem longest_iff {cs spelling rest : List Char} :
    Longest IsNumeral cs spelling rest ↔ split? cs = some (spelling, rest) := by
  have longest : ∀ {spelling rest}, split? cs = some (spelling, rest) →
      Longest IsNumeral cs spelling rest := by
    intro spelling rest split
    refine ⟨(split?_append split).1, isNumeral_of_split? split, ?_⟩
    rintro other ⟨behind, rfl⟩ numeral
    obtain ⟨spelling', rest', split', le⟩ := split?_longest numeral behind
    cases split.symm.trans split'
    exact le
  constructor
  · intro h
    obtain ⟨spelling', rest', split', -⟩ := split?_longest h.shape rest
    rw [h.split] at split'
    obtain ⟨rfl, rfl⟩ := (longest split').unique h
    exact split'
  · exact longest

end Number

/-! ## Runs -/

/-- A character of one sort and any number of another. -/
def IsRun (first more : Char → Bool) (cs : List Char) : Prop :=
  ∃ c run, cs = c :: run ∧ first c = true ∧ ∀ d ∈ run, more d = true

theorem longest_run_iff {first more : Char → Bool} {c : Char} {cs spelling rest : List Char} :
    Longest (IsRun first more) (c :: cs) spelling rest ↔
      first c = true ∧ spelling = c :: cs.takeWhile more ∧ rest = cs.dropWhile more := by
  have longest (start : first c = true) :
      Longest (IsRun first more) (c :: cs) (c :: cs.takeWhile more) (cs.dropWhile more) := by
    refine ⟨by rw [List.cons_append, List.takeWhile_append_dropWhile],
      ⟨c, _, rfl, start, List.all_eq_true.mp List.all_takeWhile⟩, ?_⟩
    rintro _ ⟨behind, split⟩ ⟨d, run, rfl, -, all⟩
    have eq : run ++ behind = cs := (List.cons.inj split).2
    simp [← eq, List.takeWhile_append_of_pos all]
  constructor
  · intro h
    obtain ⟨d, run, rfl, start, -⟩ := h.shape
    obtain ⟨rfl, rfl⟩ := List.cons.inj h.split
    exact ⟨start, h.unique (longest start)⟩
  · rintro ⟨start, rfl, rfl⟩
    exact longest start

/-! ## Literals -/

namespace Literal

/-- What a backslash stands for together with the character behind it. -/
def escapeTable : List (Char × Char) :=
  [('\\', '\\'), ('/', '/'), ('"', '"'), ('\'', '\''), ('b', '\x08'), ('f', '\x0c'), ('n', '\n'),
    ('r', '\r'), ('t', '\t')]

/-- What stands between two quotes, and the text that it stands for. No character has the code of a
surrogate. -/
inductive Decodes (quote : Char) : List Char → List Char → Prop
  | nil : Decodes quote [] []
  | plain {c : Char} {body text : List Char} : c ≠ quote → c ≠ '\\' → Decodes quote body text →
      Decodes quote (c :: body) (c :: text)
  | escape {e c : Char} {body text : List Char} : (e, c) ∈ escapeTable → Decodes quote body text →
      Decodes quote ('\\' :: e :: body) (c :: text)
  | code {ds : List Char} {c : Char} {body text : List Char} : ds.length = 4 →
      (∀ d ∈ ds, isHexDigit d = true) → c.toNat = Text.value 16 ds → Decodes quote body text →
      Decodes quote ('\\' :: 'u' :: ds ++ body) (c :: text)

/-- A literal and the text that it stands for. -/
def Writes (cs text : List Char) : Prop :=
  ∃ quote ∈ ['"', '\''], ∃ body, cs = quote :: body ++ [quote] ∧ Decodes quote body text

theorem escape?_eq_some_iff {e c : Char} : escape? e = some c ↔ (e, c) ∈ escapeTable := by
  constructor
  · intro h
    unfold escape? at h
    split at h <;> cases h <;> decide
  · intro h
    simp only [escapeTable, List.mem_cons, Prod.mk.injEq, List.not_mem_nil, or_false] at h
    rcases h with ⟨rfl, rfl⟩ | ⟨rfl, rfl⟩ | ⟨rfl, rfl⟩ | ⟨rfl, rfl⟩ | ⟨rfl, rfl⟩ | ⟨rfl, rfl⟩ |
      ⟨rfl, rfl⟩ | ⟨rfl, rfl⟩ | ⟨rfl, rfl⟩ <;> rfl

theorem scalar?_eq_some_iff {n : Nat} {c : Char} : scalar? n = some c ↔ c.toNat = n := by
  unfold scalar?
  constructor
  · intro h
    split at h
    · next valid =>
      cases h
      rw [Char.ofNat, dif_pos valid]
      rfl
    · cases h
  · rintro rfl
    have valid : c.toNat.isValidChar := c.valid
    rw [if_pos valid, Char.ofNat_toNat]

/-- A glyph with a character is an element of the body of a literal. -/
theorem decodes_glyph {quote : Char} {cs rest : List Char} {g : Glyph} {c : Char}
    (inside : cs.head? ≠ some quote) (read : glyph quote cs = .ok (g, rest))
    (char : g.char = some c) {body text : List Char} (h : Decodes quote body text) :
    Decodes quote (g.spelling ++ body) (c :: text) := by
  -- a glyph is a plain character, a code point or an escape, in the order in which it is tried
  unfold glyph at read
  split at read
  · cases read
  · next d cs =>
    split at read
    · next noEscape =>
      cases read
      cases char
      exact .plain (fun same => inside (by rw [same]; rfl)) noEscape h
    · next escape =>
      have backslash : d = '\\' := Decidable.not_not.mp escape
      subst backslash
      split at read
      · cases read
      · next _ cs =>
        split at read
        · next len =>
          cases read
          exact .code len isHexDigit_of_mem_code (scalar?_eq_some_iff.mp char) h
        · cases read
      · split at read
        · next found =>
          cases read
          cases char
          exact .escape (escape?_eq_some_iff.mp found) h
        · cases read

theorem text?_cons (g : Glyph) (gs : List Glyph) :
    text? (g :: gs) = g.char.bind fun c => (text? gs).map (c :: ·) := by
  rw [text?, List.mapM_cons, ← text?]
  cases g.char <;> cases text? gs <;> rfl

/-- The glyphs up to the closing quote, if each has a character, are the body of a literal. -/
theorem decodes_glyphs {quote : Char} {cs rest : List Char} {gs : List Glyph}
    (h : glyphs quote cs = .ok (gs, rest)) {text : List Char} (chars : text? gs = some text) :
    Decodes quote (gs.flatMap Glyph.spelling) text := by
  fun_induction glyphs quote cs generalizing gs text with
  | case1 =>
      cases h
      cases chars
      exact .nil
  | case2 => cases h
  | case3 => cases h
  | case4 cs inside g mid first gs' rest' others ih =>
      cases h
      rw [text?_cons] at chars
      obtain ⟨c, char, eq⟩ := Option.bind_eq_some_iff.mp chars
      obtain ⟨text', chars', rfl⟩ := Option.map_eq_some_iff.mp eq
      exact decodes_glyph inside first char (ih others chars')

theorem glyph_plain {quote c : Char} (noEscape : c ≠ '\\') (rest : List Char) :
    glyph quote (c :: rest) = .ok (⟨[c], some c⟩, rest) := by
  simp [glyph, noEscape]

theorem glyph_escape {quote e c : Char} (found : (e, c) ∈ escapeTable) (rest : List Char) :
    glyph quote ('\\' :: e :: rest) = .ok (⟨['\\', e], some c⟩, rest) := by
  have noCode : e ≠ 'u' := by
    rintro rfl
    simp [escapeTable] at found
  simp only [glyph, ne_eq, not_true_eq_false, if_false, escape?_eq_some_iff.mpr found]

theorem glyph_code {quote : Char} {ds : List Char} (len : ds.length = 4)
    (digits : ∀ d ∈ ds, isHexDigit d = true) (rest : List Char) :
    glyph quote ('\\' :: 'u' :: ds ++ rest) =
      .ok (⟨'\\' :: 'u' :: ds, scalar? (Text.value 16 ds)⟩, rest) := by
  have read : code (ds ++ rest) = ds := by
    have all : (ds ++ []).takeWhile isHexDigit = ds ++ [] := List.takeWhile_append_of_pos digits
    rw [List.append_nil] at all
    rw [code, ← len, List.take_left, all]
  have behind : (ds ++ rest).drop 4 = rest := by rw [← len, List.drop_left]
  simp only [List.cons_append, glyph, read, behind, len, if_true, ne_eq, not_true_eq_false,
    if_false]

/-- The body of a literal is read as glyphs that stand for its text. -/
theorem exists_glyphs_of_decodes {quote : Char} (noEscape : quote ≠ '\\') {body text : List Char}
    (h : Decodes quote body text) (rest : List Char) :
    ∃ gs, glyphs quote (body ++ quote :: rest) = .ok (gs, rest) ∧ text? gs = some text ∧
      gs.flatMap Glyph.spelling = body := by
  -- an escape does not begin with the quote, so it does not end the literal
  induction h with
  | nil =>
      refine ⟨[], ?_, rfl, rfl⟩
      rw [glyphs]
      simp
  | @plain c body text noEnd noBackslash _ ih =>
      obtain ⟨gs, read, chars, spelled⟩ := ih
      refine ⟨⟨[c], some c⟩ :: gs, ?_, by simp [text?_cons, chars], by simp [spelled]⟩
      exact glyphs_of_glyph (by simpa using noEnd) (glyph_plain noBackslash _) read
  | @escape e c body text found _ ih =>
      obtain ⟨gs, read, chars, spelled⟩ := ih
      refine ⟨⟨['\\', e], some c⟩ :: gs, ?_, by simp [text?_cons, chars], by simp [spelled]⟩
      exact glyphs_of_glyph (by simpa using noEscape.symm) (glyph_escape found _) read
  | @code ds c body text len digits value _ ih =>
      obtain ⟨gs, read, chars, spelled⟩ := ih
      have char := scalar?_eq_some_iff.mpr value
      refine ⟨⟨'\\' :: 'u' :: ds, some c⟩ :: gs, ?_, by simp [text?_cons, chars],
        by simp [spelled]⟩
      have inside : ('\\' :: 'u' :: ds ++ body ++ quote :: rest).head? ≠ some quote := by
        simpa using noEscape.symm
      refine glyphs_of_glyph inside ?_ read
      rw [List.append_assoc, glyph_code len digits, char]

/-- The literal that a text begins with is read as its glyphs. -/
theorem writes_iff {quote : Char} (isQuote : quote ∈ ['"', '\''])
    {cs spelling rest text : List Char} :
    (spelling ++ rest = quote :: cs ∧ Writes spelling text) ↔
      ∃ gs, glyphs quote cs = .ok (gs, rest) ∧ text? gs = some text ∧
        spelling = Literal.spelling quote gs := by
  constructor
  · rintro ⟨split, other, -, body, rfl, decodes⟩
    have noEscape : quote ≠ '\\' := by
      rintro rfl
      simp at isQuote
    simp only [List.cons_append, List.append_assoc, List.nil_append, List.cons.injEq] at split
    obtain ⟨rfl, rfl⟩ := split
    obtain ⟨gs, read, chars, spelled⟩ := exists_glyphs_of_decodes noEscape decodes rest
    exact ⟨gs, read, chars, by rw [Literal.spelling, spelled]⟩
  · rintro ⟨gs, read, chars, rfl⟩
    refine ⟨?_, quote, isQuote, _, rfl, decodes_glyphs read chars⟩
    simp [Literal.spelling, glyphs_append read]

/-- A literal ends with the quote that closes it, so there is only one that a text begins with. -/
theorem longest_iff {quote : Char} (isQuote : quote ∈ ['"', '\''])
    {cs spelling rest : List Char} :
    Longest (fun cs => ∃ text, Writes cs text) (quote :: cs) spelling rest ↔
      spelling ++ rest = quote :: cs ∧ ∃ text, Writes spelling text := by
  constructor
  · exact fun h => ⟨h.split, h.shape⟩
  · rintro ⟨split, text, writes⟩
    refine ⟨split, ⟨text, writes⟩, ?_⟩
    rintro other ⟨behind, split'⟩ ⟨text', writes'⟩
    obtain ⟨gs, read, -, rfl⟩ := (writes_iff isQuote).mp ⟨split, writes⟩
    obtain ⟨gs', read', -, rfl⟩ := (writes_iff isQuote).mp ⟨split', writes'⟩
    cases read.symm.trans read'
    exact Nat.le_refl _

end Literal

/-! ## Classes -/

/-- The classes of lexemes. -/
inductive Class where
  | number
  | name
  | mark
  | operator
  | literal

namespace Class

/-- What the lexemes of a class look like. -/
def Shape : Class → List Char → Prop
  | number, cs => Number.IsNumeral cs
  | name, cs => IsIdentifier (String.ofList cs)
  | mark, cs => ∃ c ∈ ['.', ',', ':', '[', ']', '{', '}', '(', ')'], cs = [c]
  | operator, cs => cs ≠ [] ∧ ∀ c ∈ cs, c ∈ ['!', '=']
  | literal, cs => ∃ text, Literal.Writes cs text

/-- The tokens that lexemes of a class spell. A run of operator characters spells none unless it is
the spelling of a symbol. -/
def Value : Class → List Char → Token.Kind → Prop
  | number, cs, kind => (∃ v, kind = .integer v ∧ Text.Denotes cs v) ∨
    (kind = .real (String.ofList cs) ∧ ∀ v, ¬ Text.Denotes cs v)
  | name, cs, kind => kind = .name (String.ofList cs)
  | mark, cs, kind | operator, cs, kind =>
    ∃ symbol, kind = .symbol symbol ∧ cs = symbol.spelling.toList
  | literal, cs, kind => ∃ text, kind = .string (String.ofList text) ∧ Literal.Writes cs text

/-- The class of the lexemes that begin with a character. -/
def of? (c : Char) : Option Class :=
  if c = '"' ∨ c = '\'' then some literal
  else if c = '-' ∨ c.isDigit then some number
  else if isNameStart c then some name
  else if isOperatorChar c then some operator
  else if (Symbol.ofChar? c).isSome then some mark
  else none

/-- The first character of a lexeme tells its class. -/
theorem of?_of_shape {cls : Class} {cs : List Char} (h : cls.Shape cs) :
    ∃ c tail, cs = c :: tail ∧ of? c = some cls := by
  cases cls with
  | number =>
      obtain ⟨c, tail, rfl, first⟩ := h.exists_eq_cons
      refine ⟨c, tail, rfl, ?_⟩
      rw [of?, if_neg (Number.ne_quote_of_begins first), if_pos first]
  | name =>
      obtain ⟨c, tail, eq, first, -⟩ := h
      rw [String.toList_ofList] at eq
      refine ⟨c, tail, eq, ?_⟩
      rw [of?, if_neg (ne_quote_of_isNameStart first), if_neg (not_number_of_isNameStart first),
        if_pos first]
  | mark =>
      obtain ⟨c, mem, rfl⟩ := h
      refine ⟨c, [], rfl, ?_⟩
      simp only [List.mem_cons, List.not_mem_nil, or_false] at mem
      rcases mem with rfl | rfl | rfl | rfl | rfl | rfl | rfl | rfl | rfl <;> rfl
  | operator =>
      obtain ⟨ne, all⟩ := h
      obtain ⟨c, tail, rfl⟩ := List.exists_cons_of_ne_nil ne
      refine ⟨c, tail, rfl, ?_⟩
      have mem := all c (by simp)
      simp only [List.mem_cons, List.not_mem_nil, or_false] at mem
      rcases mem with rfl | rfl <;> rfl
  | literal =>
      obtain ⟨text, quote, mem, body, rfl, -⟩ := h
      refine ⟨quote, body ++ [quote], rfl, ?_⟩
      simp only [List.mem_cons, List.not_mem_nil, or_false] at mem
      rcases mem with rfl | rfl <;> rfl

theorem value_number_iff {cs : List Char} {kind : Token.Kind} :
    number.Value cs kind ↔ kind = Number.kind cs := by
  unfold Value Number.kind
  cases read : Text.readInt64? cs with
  | some v =>
      have denotes := Text.readInt64?_eq_some_iff.mp read
      constructor
      · rintro (⟨v', rfl, denotes'⟩ | ⟨-, none⟩)
        · have read' := Text.readInt64?_eq_some_iff.mpr denotes'
          rw [read] at read'
          rw [Option.some.inj read']
        · exact absurd denotes (none v)
      · rintro rfl
        exact .inl ⟨v, rfl, denotes⟩
  | none =>
      have none : ∀ v, ¬ Text.Denotes cs v := by
        intro v denotes
        rw [← Text.readInt64?_eq_some_iff, read] at denotes
        cases denotes
      constructor
      · rintro (⟨v, -, denotes⟩ | ⟨rfl, -⟩)
        · exact absurd denotes (none v)
        · rfl
      · rintro rfl
        exact .inr ⟨rfl, none⟩

theorem shape_name : name.Shape = IsRun isNameStart isNameChar := by
  funext cs
  simp only [Shape, IsIdentifier, String.toList_ofList, IsRun]

theorem shape_operator : operator.Shape = IsRun isOperatorChar isOperatorChar := by
  have char (c : Char) : c ∈ ['!', '='] ↔ isOperatorChar c = true := by simp [isOperatorChar]
  funext cs
  simp only [Shape, IsRun, char, eq_iff_iff]
  constructor
  · rintro ⟨ne, all⟩
    obtain ⟨c, run, rfl⟩ := List.exists_cons_of_ne_nil ne
    exact ⟨c, run, rfl, List.forall_mem_cons.mp all⟩
  · rintro ⟨c, run, rfl, all⟩
    exact ⟨List.cons_ne_nil c run, List.forall_mem_cons.mpr all⟩

end Class

/-! ## The first lexeme -/

/-- A text begins with a lexeme, the longest of its class, and goes on with `rest`. -/
def First (cs : List Char) (lexeme : Lexeme) (rest : List Char) : Prop :=
  ∃ cls : Class, Longest cls.Shape cs lexeme.spelling rest ∧ cls.Value lexeme.spelling lexeme.kind

/-- The class of the first lexeme is known beforehand. -/
theorem first_cons_iff {c : Char} {cls : Class} (begins : Class.of? c = some cls)
    {cs rest : List Char} {lexeme : Lexeme} :
    First (c :: cs) lexeme rest ↔ Longest cls.Shape (c :: cs) lexeme.spelling rest ∧
      cls.Value lexeme.spelling lexeme.kind := by
  constructor
  · rintro ⟨other, longest, value⟩
    obtain ⟨d, tail, eq, begins'⟩ := Class.of?_of_shape longest.shape
    have split := longest.split
    rw [eq] at split
    rw [(List.cons.inj split).1, begins] at begins'
    cases begins'
    exact ⟨longest, value⟩
  · exact fun first => ⟨cls, first⟩

/-- Every lexeme has a first character, one that lexemes of its class begin with. -/
theorem First.exists_eq_cons {cs rest : List Char} {lexeme : Lexeme} (h : First cs lexeme rest) :
    ∃ c tail cls, cs = c :: tail ∧ Class.of? c = some cls := by
  obtain ⟨cls, longest, -⟩ := h
  obtain ⟨c, tail, eq, begins⟩ := Class.of?_of_shape longest.shape
  exact ⟨c, tail ++ rest, cls, by rw [← longest.split, eq, List.cons_append], begins⟩

/-! ## Reading by classes -/

theorem operator?_eq_some_iff {cs : List Char} (run : ∀ c ∈ cs, isOperatorChar c = true)
    {symbol : Symbol} : operator? cs = some symbol ↔ cs = symbol.spelling.toList := by
  constructor
  · exact spelling_of_operator?
  · rintro rfl
    -- all symbols but the comparisons are spelled with other characters
    cases symbol
    case equal | unequal => rfl
    all_goals exact absurd (run _ (by simp [Symbol.spelling]; rfl)) (by decide)

theorem ofChar?_eq_some_iff {c : Char} {symbol : Symbol} :
    Symbol.ofChar? c = some symbol ↔ [c] = symbol.spelling.toList := by
  constructor
  · exact spelling_of_ofChar?
  · intro eq
    cases symbol <;> simp [Symbol.spelling] at eq <;> subst eq <;> rfl

section Read

variable {c : Char} {cs spelling rest : List Char} {kind : Token.Kind}

theorem readLiteral_eq_ok_iff (isQuote : c ∈ ['"', '\'']) :
    readLiteral c cs = .ok (⟨spelling, kind⟩, rest) ↔
      Longest Class.literal.Shape (c :: cs) spelling rest ∧ Class.literal.Value spelling kind := by
  have shape : Class.literal.Shape = fun cs => ∃ text, Literal.Writes cs text := rfl
  rw [shape, Literal.longest_iff isQuote, Class.Value]
  constructor
  · intro h
    unfold readLiteral at h
    split at h
    · cases h
    · next gs _ read =>
      split at h
      · next text chars =>
        cases h
        obtain ⟨split, writes⟩ := (Literal.writes_iff isQuote).mpr ⟨gs, read, chars, rfl⟩
        exact ⟨⟨split, text, writes⟩, text, rfl, writes⟩
      · cases h
  · rintro ⟨⟨split, -⟩, text, rfl, writes⟩
    obtain ⟨gs, read, chars, rfl⟩ := (Literal.writes_iff isQuote).mp ⟨split, writes⟩
    simp only [readLiteral, read, chars]

theorem readNumber_eq_ok_iff (begins : c = '-' ∨ c.isDigit = true) :
    read (c :: cs) = .ok (⟨spelling, kind⟩, rest) ↔
      Longest Class.number.Shape (c :: cs) spelling rest ∧ Class.number.Value spelling kind := by
  have shape : Class.number.Shape = Number.IsNumeral := rfl
  rw [shape, Number.longest_iff, Class.value_number_iff, read,
    if_neg (Number.ne_quote_of_begins begins), if_pos begins]
  cases Number.split? (c :: cs) with
  | none => simp
  | some parts =>
      obtain ⟨spelling', rest'⟩ := parts
      constructor
      · intro h
        cases h
        exact ⟨rfl, rfl⟩
      · rintro ⟨same, rfl⟩
        cases same
        rfl

theorem readName_eq_ok_iff (start : isNameStart c = true) :
    read (c :: cs) = .ok (⟨spelling, kind⟩, rest) ↔
      Longest Class.name.Shape (c :: cs) spelling rest ∧ Class.name.Value spelling kind := by
  rw [Class.shape_name, longest_run_iff, Class.Value, read,
    if_neg (ne_quote_of_isNameStart start), if_neg (not_number_of_isNameStart start), if_pos start]
  constructor
  · intro h
    cases h
    exact ⟨⟨start, rfl, rfl⟩, rfl⟩
  · rintro ⟨⟨-, rfl, rfl⟩, rfl⟩
    rfl

theorem readOperator_eq_ok_iff (operator : isOperatorChar c = true) :
    read (c :: cs) = .ok (⟨spelling, kind⟩, rest) ↔
      Longest Class.operator.Shape (c :: cs) spelling rest ∧
        Class.operator.Value spelling kind := by
  have run : ∀ d ∈ c :: cs.takeWhile isOperatorChar, isOperatorChar d = true :=
    List.forall_mem_cons.mpr ⟨operator, List.all_eq_true.mp List.all_takeWhile⟩
  have other : ¬ (c = '"' ∨ c = '\'') ∧ ¬ (c = '-' ∨ c.isDigit = true) ∧
      ¬ isNameStart c = true := by
    simp only [isOperatorChar, Bool.or_eq_true, beq_iff_eq] at operator
    rcases operator with rfl | rfl <;> decide
  rw [Class.shape_operator, longest_run_iff, Class.Value, read, if_neg other.1,
    if_neg other.2.1, if_neg other.2.2, if_pos operator]
  dsimp only
  constructor
  · intro h
    split at h
    · next symbol found =>
      cases h
      exact ⟨⟨operator, rfl, rfl⟩, symbol, rfl, (operator?_eq_some_iff run).mp found⟩
    · cases h
  · rintro ⟨⟨-, rfl, rfl⟩, symbol, rfl, eq⟩
    rw [(operator?_eq_some_iff run).mpr eq]

theorem mem_marks_of_ofChar? {symbol : Symbol} (found : Symbol.ofChar? c = some symbol) :
    c ∈ ['.', ',', ':', '[', ']', '{', '}', '(', ')'] := by
  unfold Symbol.ofChar? at found
  split at found <;> cases found <;> decide

theorem longest_mark_iff {symbol : Symbol} (found : Symbol.ofChar? c = some symbol) :
    Longest Class.mark.Shape (c :: cs) spelling rest ↔ spelling = [c] ∧ rest = cs := by
  refine Longest.iff_of ⟨rfl, ⟨c, mem_marks_of_ofChar? found, rfl⟩, ?_⟩
  rintro _ - ⟨d, -, rfl⟩
  exact Nat.le_refl 1

/-- A character that begins no lexeme of another class is a punctuation mark or begins none. -/
theorem readMark_eq_ok_iff (quote : ¬ (c = '"' ∨ c = '\''))
    (number : ¬ (c = '-' ∨ c.isDigit = true)) (name : ¬ isNameStart c = true)
    (operator : ¬ isOperatorChar c = true) :
    read (c :: cs) = .ok (⟨spelling, kind⟩, rest) ↔ First (c :: cs) ⟨spelling, kind⟩ rest := by
  have cls : Class.of? c = if (Symbol.ofChar? c).isSome then some .mark else none := by
    rw [Class.of?, if_neg quote, if_neg number, if_neg name, if_neg operator]
  rw [read, if_neg quote, if_neg number, if_neg name, if_neg operator]
  cases found : Symbol.ofChar? c with
  | none =>
      rw [found] at cls
      constructor
      · intro h
        cases h
      · intro first
        obtain ⟨d, tail, other, eq, begins⟩ := first.exists_eq_cons
        rw [← (List.cons.inj eq).1, cls] at begins
        cases begins
  | some symbol =>
      rw [found] at cls
      rw [first_cons_iff cls, longest_mark_iff found, Class.Value]
      constructor
      · intro h
        cases h
        exact ⟨⟨rfl, rfl⟩, symbol, rfl, ofChar?_eq_some_iff.mp found⟩
      · rintro ⟨⟨rfl, rfl⟩, other, rfl, eq⟩
        rw [← ofChar?_eq_some_iff, found] at eq
        rw [Option.some.inj eq]

end Read

/-- The first lexeme of a text is the longest of its class. -/
theorem read_eq_ok_iff {cs rest : List Char} {lexeme : Lexeme} :
    read cs = .ok (lexeme, rest) ↔ First cs lexeme rest := by
  obtain ⟨spelling, kind⟩ := lexeme
  cases cs with
  | nil =>
      constructor
      · intro h
        cases h
      · intro first
        obtain ⟨c, tail, cls, eq, -⟩ := first.exists_eq_cons
        cases eq
  | cons c cs =>
      -- the classes are tried by the first character, a mark last of all
      by_cases quote : c = '"' ∨ c = '\''
      · have reads : read (c :: cs) = readLiteral c cs := by rw [read, if_pos quote]
        rw [reads, first_cons_iff (by rw [Class.of?, if_pos quote])]
        exact readLiteral_eq_ok_iff (by simpa using quote)
      by_cases number : c = '-' ∨ c.isDigit = true
      · rw [first_cons_iff (by rw [Class.of?, if_neg quote, if_pos number])]
        exact readNumber_eq_ok_iff number
      by_cases name : isNameStart c = true
      · rw [first_cons_iff (by rw [Class.of?, if_neg quote, if_neg number, if_pos name])]
        exact readName_eq_ok_iff name
      by_cases operator : isOperatorChar c = true
      · rw [first_cons_iff (by rw [Class.of?, if_neg quote, if_neg number, if_neg name,
          if_pos operator])]
        exact readOperator_eq_ok_iff operator
      exact readMark_eq_ok_iff quote number name operator

end Lexeme

end SheetMarkup
