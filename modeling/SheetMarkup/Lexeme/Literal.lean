import SheetMarkup.Lexeme.Reach
import SheetMarkup.Text.Numeral

/-!
# String literals in tags

A literal stands between two quotes of one kind, single or double. Between them a backslash begins
an escape: one of nine letters and signs, or `u` with four hexadecimal digits. A literal is read
glyph by glyph, a glyph being one character as it is spelled together with what it stands for.
-/

namespace SheetMarkup.Lexeme

/-- One character of a literal: how it is spelled and what it stands for. A code that belongs to no
character, a surrogate, stands for nothing. -/
structure Glyph where
  spelling : List Char
  char : Option Char
deriving DecidableEq, Repr

namespace Literal

/-- What a backslash and this character stand for. -/
def escape? : Char → Option Char
  | '\\' => some '\\'
  | '/' => some '/'
  | '"' => some '"'
  | '\'' => some '\''
  | 'b' => some '\x08'
  | 'f' => some '\x0c'
  | 'n' => some '\n'
  | 'r' => some '\r'
  | 't' => some '\t'
  | _ => none

/-- The characters that may follow a backslash. -/
def escapes : List (Option Char) :=
  ['\\', '/', '"', '\'', 'b', 'f', 'n', 'r', 't', 'u'].map some

/-- Hexadecimal digits in either case. -/
def isHexDigit (c : Char) : Bool :=
  c.isDigit || ('a' ≤ c && c ≤ 'f') || ('A' ≤ c && c ≤ 'F')

/-- The character of a code point, unless it is a surrogate. -/
def scalar? (n : Nat) : Option Char := if n.isValidChar then some (Char.ofNat n) else none

/-- The hexadecimal digits, up to four, with which a text begins. -/
def code (cs : List Char) : List Char := (cs.take 4).takeWhile isHexDigit

/-- Reads one glyph between the quotes `quote`. What comes first is not that quote. -/
def glyph (quote : Char) : List Char → Except Reach (Glyph × List Char)
  | [] => .error ⟨0, [some '\\', some quote]⟩
  | c :: rest =>
    if c ≠ '\\' then .ok (⟨[c], some c⟩, rest)
    else
      match rest with
      | [] => .error ⟨1, escapes⟩
      | 'u' :: rest =>
        if (code rest).length = 4 then
          .ok (⟨c :: 'u' :: code rest, scalar? (Text.value 16 (code rest))⟩, rest.drop 4)
        else .error ⟨2 + (code rest).length, []⟩
      | e :: rest =>
        match escape? e with
        | some d => .ok (⟨[c, e], some d⟩, rest)
        | none => .error ⟨1, escapes⟩

theorem takeWhile_eq_self_of_length {p : α → Bool} {l : List α}
    (h : (l.takeWhile p).length = l.length) : l.takeWhile p = l :=
  (List.takeWhile_prefix p).eq_of_length h

/-- A glyph is a non-empty beginning of the text it is read from. -/
theorem glyph_append {quote : Char} {cs rest : List Char} {g : Glyph}
    (h : glyph quote cs = .ok (g, rest)) : g.spelling ++ rest = cs ∧ g.spelling ≠ [] := by
  unfold glyph at h
  split at h
  · cases h
  · next c cs =>
    split at h
    · cases h; simp
    · split at h
      · cases h
      · next _ cs =>
        split at h
        · next len =>
          cases h
          have all : code cs = cs.take 4 :=
            takeWhile_eq_self_of_length (Nat.le_antisymm (List.takeWhile_prefix _).length_le (by
              have := List.length_take_le 4 cs
              unfold code at len
              omega))
          simp [all]
        · cases h
      · split at h
        · cases h; simp
        · cases h

/-- Reads the glyphs up to the closing quote. -/
def glyphs (quote : Char) (cs : List Char) : Except Reach (List Glyph × List Char) :=
  if cs.head? = some quote then .ok ([], cs.tail)
  else
    match _read : glyph quote cs with
    | .error reach => .error reach
    | .ok (g, rest) =>
      match glyphs quote rest with
      | .error reach => .error (reach.shift g.spelling.length)
      | .ok (gs, rest) => .ok (g :: gs, rest)
termination_by cs.length
decreasing_by
  obtain ⟨rfl, ne⟩ := glyph_append _read
  have := List.length_pos_iff.mpr ne
  simp only [List.length_append]
  omega

/-- The spelling of a whole literal. -/
def spelling (quote : Char) (gs : List Glyph) : List Char :=
  quote :: gs.flatMap Glyph.spelling ++ [quote]

/-- The text that glyphs stand for, if each stands for a character. -/
def text? (gs : List Glyph) : Option (List Char) := gs.mapM Glyph.char

/-- Where, counted from the opening quote, the digits of the first surrogate begin. -/
def surrogateOffset (gs : List Glyph) : Nat :=
  let before := gs.takeWhile fun g => g.char.isSome
  1 + (before.flatMap Glyph.spelling).length + 2

/-- The glyphs of a literal and its closing quote are a beginning of the text they are read from. -/
theorem glyphs_append {quote : Char} {cs rest : List Char} {gs : List Glyph}
    (h : glyphs quote cs = .ok (gs, rest)) :
    gs.flatMap Glyph.spelling ++ quote :: rest = cs := by
  fun_induction glyphs quote cs generalizing gs with
  | case1 cs head =>
    cases h
    cases cs with
    | nil => cases head
    | cons c cs => cases head; rfl
  | case2 => cases h
  | case3 => cases h
  | case4 cs _ g mid hg gs' rest' hgs ih =>
    cases h
    rw [List.flatMap_cons, List.append_assoc, ih hgs]
    exact (glyph_append hg).1

end Literal

end SheetMarkup.Lexeme
