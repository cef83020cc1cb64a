import SheetMarkup.Lexeme.Reach
import SheetMarkup.Token.Basic

/-!
# Numbers in tags

A number is a minus sign or none, a whole part that is `0` or does not begin with `0`, and as much
of a fraction and an exponent as follows. It is an integer if it is written as one and fits 64 bits,
and a real number, kept as it is written, otherwise.
-/

namespace SheetMarkup.Lexeme.Number

/-- Splits off the whole part. -/
def whole? : List Char → Option (List Char × List Char)
  | [] => none
  | c :: rest =>
    if c = '0' then some ([c], rest)
    else if c.isDigit then some (c :: rest.takeWhile Char.isDigit, rest.dropWhile Char.isDigit)
    else none

/-- Splits off the fraction, a point and digits, if there is one. -/
def fraction : List Char → List Char × List Char
  | [] => ([], [])
  | c :: rest =>
    let ds := rest.takeWhile Char.isDigit
    if c = '.' ∧ ds ≠ [] then (c :: ds, rest.dropWhile Char.isDigit) else ([], c :: rest)

/-- Splits off a sign from the given ones, if there is one. -/
def sign (signs : List Char) : List Char → List Char × List Char
  | [] => ([], [])
  | c :: rest => if c ∈ signs then ([c], rest) else ([], c :: rest)

/-- The letters that begin an exponent. -/
def exponentMarks : List Char := ['e', 'E']

/-- Splits off the exponent, a letter, a sign or none and digits, if there is one. -/
def exponent : List Char → List Char × List Char
  | [] => ([], [])
  | c :: rest =>
    let (s, unsigned) := sign ['+', '-'] rest
    let ds := unsigned.takeWhile Char.isDigit
    if c ∈ exponentMarks ∧ ds ≠ [] then (c :: s ++ ds, unsigned.dropWhile Char.isDigit)
    else ([], c :: rest)

/-- Splits off the number with which a text begins. -/
def split? (cs : List Char) : Option (List Char × List Char) := do
  let (s, unsigned) := sign ['-'] cs
  let (w, rest) ← whole? unsigned
  let (f, rest) := fraction rest
  let (e, rest) := exponent rest
  return (s ++ w ++ f ++ e, rest)

/-- The token that a number's text is. -/
def kind (spelling : List Char) : Token.Kind :=
  match Text.readInt64? spelling with
  | some n => .integer n
  | none => .real (String.ofList spelling)

/-- What a number still asked for where it ended: after one without an exponent, a further part of
which only a beginning or nothing followed. -/
def pending (spelling rest : List Char) : Reach :=
  if spelling.any (· ∈ exponentMarks) then .start
  else
    match rest with
    -- behind the whole part, a point without a digit; digits are never listed
    | '.' :: _ => if '.' ∈ spelling then ⟨0, exponentMarks.map some⟩ else ⟨1, []⟩
    | c :: rest =>
      -- a mark without a digit, after which a sign could have stood
      if c ∈ exponentMarks then
        if (sign ['+', '-'] rest).1 = [] then ⟨1, [some '+', some '-']⟩ else ⟨2, []⟩
      else ⟨0, exponentMarks.map some⟩
    | [] => ⟨0, exponentMarks.map some⟩

/-! ## Nothing is lost -/

theorem whole?_append {cs w rest : List Char} (h : whole? cs = some (w, rest)) :
    w ++ rest = cs ∧ w ≠ [] := by
  cases cs with
  | nil => cases h
  | cons c cs =>
    simp only [whole?] at h
    split at h
    · cases h; simp
    · split at h
      · cases h; simp [List.takeWhile_append_dropWhile]
      · cases h

theorem fraction_append (cs : List Char) : (fraction cs).1 ++ (fraction cs).2 = cs := by
  cases cs with
  | nil => rfl
  | cons c cs =>
    simp only [fraction]
    split <;> simp [List.takeWhile_append_dropWhile]

theorem sign_append (signs cs : List Char) : (sign signs cs).1 ++ (sign signs cs).2 = cs := by
  cases cs with
  | nil => rfl
  | cons c cs =>
    simp only [sign]
    split <;> simp

theorem exponent_append (cs : List Char) : (exponent cs).1 ++ (exponent cs).2 = cs := by
  cases cs with
  | nil => rfl
  | cons c cs =>
    simp only [exponent]
    split
    · simp [List.takeWhile_append_dropWhile, sign_append]
    · rfl

/-- A number is a non-empty beginning of the text it is split off from. -/
theorem split?_append {cs spelling rest : List Char} (h : split? cs = some (spelling, rest)) :
    spelling ++ rest = cs ∧ spelling ≠ [] := by
  simp only [split?, Option.bind_eq_bind, Option.bind_eq_some_iff, Prod.exists] at h
  obtain ⟨w, r, hw, h⟩ := h
  simp only [pure, Option.some.injEq, Prod.mk.injEq] at h
  obtain ⟨rfl, rfl⟩ := h
  obtain ⟨split, ne⟩ := whole?_append hw
  refine ⟨?_, by simp [ne]⟩
  rw [List.append_assoc, exponent_append, List.append_assoc, fraction_append, List.append_assoc,
    split, sign_append]

end SheetMarkup.Lexeme.Number
