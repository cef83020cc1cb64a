import SheetMarkup.Lexeme.Literal
import SheetMarkup.Lexeme.Number
import SheetMarkup.Text.Blank

/-!
# Lexemes

The inside of a tag is a row of lexemes with blanks before, between and after them. A lexeme is the
spelling of one token. What it is follows from its first character: a literal, a number, a name, an
operator or a punctuation mark; it then reaches as far as it can. `read` takes the first lexeme off
a text, in one of the ways that `Scanned` lists, and `readAll` takes all of them. Both lose nothing
(`read_append`, `readAll_append`).
-/

namespace SheetMarkup

/-- A token as it is spelled. -/
structure Lexeme where
  spelling : List Char
  kind : Token.Kind
deriving DecidableEq, Repr

/-- Why a text is no row of lexemes. The last two are about the place where an operator, or the code
of a character, begins. -/
inductive Lexeme.Fault where
  | refused (reach : Reach)
  | operator (offset : Nat)
  | surrogate (offset : Nat)
deriving DecidableEq, Repr

namespace Lexeme

namespace Fault

/-- Where the fault lies, counted from where the reading began. -/
def offset : Fault → Nat
  | refused reach => reach.offset
  | operator offset => offset
  | surrogate offset => offset

/-- The same fault seen from a place that lies `n` characters before. -/
def shift (n : Nat) : Fault → Fault
  | refused reach => refused (reach.shift n)
  | operator offset => operator (n + offset)
  | surrogate offset => surrogate (n + offset)

/-- The fault after something that had asked for more. -/
def after (pending : Reach) : Fault → Fault
  | refused reach => refused (pending.join reach)
  | fault => fault

end Fault

/-- The characters a lexeme can begin with, letters and the digits above zero aside, or the end. -/
def starts : List (Option Char) :=
  none :: ['"', '\'', '-', '0', '.', ',', ':', '[', ']', '{', '}', '(', ')', '!', '='].map some

/-- The characters that operators consist of. -/
def isOperatorChar (c : Char) : Bool := c == '!' || c == '='

/-- The characters that a name can begin with. -/
def isNameStart (c : Char) : Bool := c.isAlpha || c == '_'

/-- The characters that a name can go on with. -/
def isNameChar (c : Char) : Bool := c.isAlphanum || c == '_'

/-- The symbol that a run of operator characters spells, if it spells one. -/
def operator? : List Char → Option Symbol
  | ['=', '='] => some .equal
  | ['!', '='] => some .unequal
  | _ => none

/-- Reads a literal, from its opening quote on. -/
def readLiteral (quote : Char) (cs : List Char) : Except Fault (Lexeme × List Char) :=
  match Literal.glyphs quote cs with
  | .error reach => .error (.refused (reach.shift 1))
  | .ok (gs, rest) =>
    match Literal.text? gs with
    | some text => .ok (⟨Literal.spelling quote gs, .string (String.ofList text)⟩, rest)
    | none => .error (.surrogate (Literal.surrogateOffset gs))

/-- Reads the first lexeme of a text that does not begin with a blank. -/
def read : List Char → Except Fault (Lexeme × List Char)
  | [] => .error (.refused ⟨0, starts⟩)
  | c :: rest =>
    if c = '"' ∨ c = '\'' then readLiteral c rest
    else if c = '-' ∨ c.isDigit then
      -- a minus sign begins nothing but a number
      match Number.split? (c :: rest) with
      | some (spelling, rest) => .ok (⟨spelling, Number.kind spelling⟩, rest)
      | none => .error (.refused ⟨1, [some '0']⟩)
    else if isNameStart c then
      let spelling := c :: rest.takeWhile isNameChar
      .ok (⟨spelling, .name (String.ofList spelling)⟩, rest.dropWhile isNameChar)
    else if isOperatorChar c then
      let spelling := c :: rest.takeWhile isOperatorChar
      match operator? spelling with
      | some symbol => .ok (⟨spelling, .symbol symbol⟩, rest.dropWhile isOperatorChar)
      | none => .error (.operator 0)
    else
      match Symbol.ofChar? c with
      | some symbol => .ok (⟨[c], .symbol symbol⟩, rest)
      | none => .error (.refused ⟨0, starts⟩)

/-- The ways in which a text gives its first lexeme, and what remains of the text. -/
inductive Scanned : List Char → Lexeme → List Char → Prop
  | literal {quote : Char} {cs rest : List Char} {gs : List Glyph} (value : String) :
      quote ∈ ['"', '\''] → Literal.glyphs quote cs = .ok (gs, rest) →
      Scanned (quote :: cs) ⟨Literal.spelling quote gs, .string value⟩ rest
  | number {cs spelling rest : List Char} : Number.split? cs = some (spelling, rest) →
      Scanned cs ⟨spelling, Number.kind spelling⟩ rest
  | name {c : Char} {cs spelling : List Char} : isNameStart c = true →
      spelling = c :: cs.takeWhile isNameChar →
      Scanned (c :: cs) ⟨spelling, .name (String.ofList spelling)⟩ (cs.dropWhile isNameChar)
  | operator {c : Char} {cs spelling : List Char} {symbol : Symbol} :
      operator? spelling = some symbol → spelling = c :: cs.takeWhile isOperatorChar →
      Scanned (c :: cs) ⟨spelling, .symbol symbol⟩ (cs.dropWhile isOperatorChar)
  | mark {c : Char} {symbol : Symbol} (cs : List Char) : Symbol.ofChar? c = some symbol →
      Scanned (c :: cs) ⟨[c], .symbol symbol⟩ cs

theorem scanned_of_read {cs rest : List Char} {lexeme : Lexeme}
    (h : read cs = .ok (lexeme, rest)) : Scanned cs lexeme rest := by
  cases cs with
  | nil => cases h
  | cons c cs =>
    simp only [read] at h
    split at h
    · next quote =>
      unfold readLiteral at h
      split at h
      · cases h
      · next gs _ inside =>
        split at h
        · cases h
          exact .literal _ (by simpa using quote) inside
        · cases h
    split at h
    · split at h
      · next number =>
        cases h
        exact .number number
      · cases h
    split at h
    · next start =>
      cases h
      exact .name start rfl
    split at h
    · split at h
      · next operator =>
        cases h
        exact .operator operator rfl
      · cases h
    · split at h
      · next mark =>
        cases h
        exact .mark _ mark
      · cases h

/-- A lexeme is a non-empty beginning of the text it is read from. -/
theorem read_append {cs rest : List Char} {lexeme : Lexeme} (h : read cs = .ok (lexeme, rest)) :
    lexeme.spelling ++ rest = cs ∧ lexeme.spelling ≠ [] := by
  cases scanned_of_read h with
  | literal _ _ inside => simp [Literal.spelling, Literal.glyphs_append inside]
  | number split => exact Number.split?_append split
  | name _ spelling => simp [spelling, List.takeWhile_append_dropWhile]
  | operator _ spelling => simp [spelling, List.takeWhile_append_dropWhile]
  | mark => simp

/-- What a lexeme still asked for where it ended. -/
def pending (lexeme : Lexeme) (rest : List Char) : Reach :=
  match lexeme.kind with
  | .integer _ | .real _ => Number.pending lexeme.spelling rest
  | _ => .start

/-- Reads a whole text: the lexemes, each with the blanks before it, and the blanks at the end. -/
def readAll (cs : List Char) : Except Fault (List (List Char × Lexeme) × List Char) :=
  let lead := cs.takeWhile Text.isBlank
  let body := cs.dropWhile Text.isBlank
  if body = [] then .ok ([], lead)
  else
    match _read : read body with
    | .error fault => .error (fault.shift lead.length)
    | .ok (lexeme, rest) =>
      match readAll rest with
      | .error fault =>
        .error ((fault.after (lexeme.pending rest)).shift (lead.length + lexeme.spelling.length))
      | .ok (more, trail) => .ok ((lead, lexeme) :: more, trail)
termination_by cs.length
decreasing_by
  obtain ⟨split, ne⟩ := read_append _read
  have := List.length_pos_iff.mpr ne
  have := congrArg List.length split
  have : body.length ≤ cs.length := (List.dropWhile_suffix Text.isBlank).length_le
  simp only [List.length_append] at *
  omega

/-- How lexemes and the blanks before them are spelled. -/
def spellAll (row : List (List Char × Lexeme)) : List Char :=
  row.flatMap fun entry => entry.1 ++ entry.2.spelling

/-- The lexemes and blanks of a text make it up. -/
theorem readAll_append {cs trail : List Char} {row : List (List Char × Lexeme)}
    (h : readAll cs = .ok (row, trail)) : spellAll row ++ trail = cs := by
  fun_induction readAll cs generalizing row with
  | case1 cs lead body =>
    rename_i blank
    simp only [Except.ok.injEq, Prod.mk.injEq] at h
    obtain ⟨rfl, rfl⟩ := h
    have := List.takeWhile_append_dropWhile (p := Text.isBlank) (l := cs)
    rwa [show cs.dropWhile Text.isBlank = [] from blank, List.append_nil] at this
  | case2 => cases h
  | case3 => cases h
  | case4 cs lead body _ lexeme rest hread more trail' hmore =>
    rename_i ih
    simp only [Except.ok.injEq, Prod.mk.injEq] at h
    obtain ⟨rfl, rfl⟩ := h
    have := ih hmore
    simp only [spellAll, List.flatMap_cons, List.append_assoc] at this ⊢
    rw [this, (read_append hread).1]
    exact List.takeWhile_append_dropWhile

/-- The tokens that a row of lexemes spells when it begins on this line. -/
def tokens (line : Nat) : List (List Char × Lexeme) → List Token
  | [] => []
  | (lead, lexeme) :: more =>
    let start := line + Text.lineFeeds lead
    ⟨lexeme.kind, start⟩ :: tokens (start + Text.lineFeeds lexeme.spelling) more

end Lexeme

end SheetMarkup
