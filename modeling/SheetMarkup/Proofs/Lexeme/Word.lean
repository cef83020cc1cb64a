import SheetMarkup.Lexeme.Basic

/-!
# Where names and numbers end

A name or a number that blanks follow ends where the blanks begin; a number also ends before
whatever it cannot go on with (`Lexeme.Number.Ends`). What counts as a number is said
here without regard to how numbers are read (`Lexeme.Number.IsNumeral`): an optional minus sign, a
whole part without leading zeros, and optionally a fraction and an exponent. A number is split off
as a whole (`Lexeme.Number.split?_append_of`), and every integer is written as one.
-/

namespace SheetMarkup

/-! ## Blanks -/

/-- A text that is empty or begins with a blank. -/
def BlankLed (cs : List Char) : Prop := ∀ c ∈ cs.head?, Text.isBlank c = true

/-- Blanks, at least one. -/
def Blanks (cs : List Char) : Prop := cs ≠ [] ∧ ∀ c ∈ cs, Text.isBlank c = true

theorem Blanks.blankLed {cs : List Char} (h : Blanks cs) (rest : List Char) :
    BlankLed (cs ++ rest) := by
  obtain ⟨ne, blank⟩ := h
  cases cs with
  | nil => exact absurd rfl ne
  | cons c cs => simpa [BlankLed] using blank c (by simp)

namespace Text

/-- The signs, digits and letters of ASCII are no blanks. -/
theorem isBlank_eq_false {c : Char} (low : 33 ≤ c.toNat) (high : c.toNat ≤ 126) :
    isBlank c = false := by
  simp only [isBlank, Bool.or_eq_false_iff, Bool.and_eq_false_iff, decide_eq_false_iff_not,
    beq_eq_false_iff_ne]
  omega

theorem toNat_of_isDigit {c : Char} (h : c.isDigit = true) : 48 ≤ c.toNat ∧ c.toNat ≤ 57 := by
  simpa [Char.isDigit, UInt32.le_iff_toNat_le] using h

theorem toNat_of_isAlpha {c : Char} (h : c.isAlpha = true) : 65 ≤ c.toNat ∧ c.toNat ≤ 122 := by
  have letter : (decide ('A'.val ≤ c.val ∧ c.val ≤ 'Z'.val) ||
      (decide ('a'.val ≤ c.val) && decide (c.val ≤ 'z'.val))) = true := h
  simp only [Bool.or_eq_true, Bool.and_eq_true, decide_eq_true_eq,
    UInt32.le_iff_toNat_le] at letter
  have val : c.toNat = c.val.toNat := rfl
  have codes : 'A'.val.toNat = 65 ∧ 'Z'.val.toNat = 90 ∧ 'a'.val.toNat = 97 ∧
      'z'.val.toNat = 122 := by
    decide
  omega

end Text

section Runs

variable {α : Type} {p : α → Bool} {run run' rest rest' : List α}

/-- A run of items of one sort that ends where another item or nothing follows. -/
theorem takeWhile_append_stop (all : ∀ a ∈ run, p a = true) (stop : ∀ a ∈ rest.head?, p a = false) :
    (run ++ rest).takeWhile p = run ∧ (run ++ rest).dropWhile p = rest := by
  induction run with
  | nil =>
      cases rest with
      | nil => exact ⟨rfl, rfl⟩
      | cons a rest => simp [stop a (by simp)]
  | cons a run ih =>
      obtain ⟨take, drop⟩ := ih fun b mem => all b (by simp [mem])
      simp [all a (by simp), take, drop]

/-- Two runs of items of one sort that other items follow are the same if what begins with them is
the same. -/
theorem eq_of_runs (h : run ++ rest = run' ++ rest') (all : ∀ a ∈ run, p a = true)
    (all' : ∀ a ∈ run', p a = true) (stop : ∀ a ∈ rest.head?, p a = false)
    (stop' : ∀ a ∈ rest'.head?, p a = false) : run = run' ∧ rest = rest' := by
  obtain ⟨take, drop⟩ := takeWhile_append_stop all stop
  obtain ⟨take', drop'⟩ := takeWhile_append_stop all' stop'
  rw [h] at take drop
  exact ⟨take.symm.trans take', drop.symm.trans drop'⟩

end Runs

/-! ## Names and numbers -/

/-- The names that can be written: a letter or underscore, then letters, digits and underscores. -/
def IsIdentifier (name : String) : Prop :=
  ∃ c cs, name.toList = c :: cs ∧ Lexeme.isNameStart c = true ∧
    ∀ d ∈ cs, Lexeme.isNameChar d = true

namespace Lexeme

theorem toNat_of_isNameStart {c : Char} (h : isNameStart c = true) :
    65 ≤ c.toNat ∧ c.toNat ≤ 122 := by
  simp only [isNameStart, Bool.or_eq_true, beq_iff_eq] at h
  rcases h with h | rfl
  · exact Text.toNat_of_isAlpha h
  · decide

theorem ne_quote_of_isNameStart {c : Char} (h : isNameStart c = true) :
    ¬ (c = '"' ∨ c = '\'') := by
  rintro (rfl | rfl) <;> cases h

/-- No name begins as a number does. -/
theorem not_number_of_isNameStart {c : Char} (h : isNameStart c = true) :
    ¬ (c = '-' ∨ c.isDigit = true) := by
  obtain ⟨low, high⟩ := toNat_of_isNameStart h
  rintro (rfl | digit)
  · cases h
  · have := Text.toNat_of_isDigit digit
    omega

theorem toNat_of_isNameChar {c : Char} (h : isNameChar c = true) :
    48 ≤ c.toNat ∧ c.toNat ≤ 122 := by
  simp only [isNameChar, Char.isAlphanum, Bool.or_eq_true, beq_iff_eq] at h
  rcases h with (h | h) | rfl
  · have := Text.toNat_of_isAlpha h
    omega
  · have := Text.toNat_of_isDigit h
    omega
  · decide

/-- No name goes on with a blank. -/
theorem isNameChar_of_isBlank {c : Char} (h : Text.isBlank c = true) : isNameChar c = false := by
  cases name : isNameChar c with
  | false => rfl
  | true =>
      obtain ⟨low, high⟩ := toNat_of_isNameChar name
      rw [Text.isBlank_eq_false (by omega) (by omega)] at h
      cases h

end Lexeme

/-- An identifier consists of characters of names, the first one too. -/
theorem IsIdentifier.isNameChar_of_mem {word : String} (h : IsIdentifier word) :
    ∀ c ∈ word.toList, Lexeme.isNameChar c = true := by
  obtain ⟨first, cs, eq, start, others⟩ := h
  intro c mem
  rw [eq] at mem
  rcases List.mem_cons.mp mem with rfl | mem
  · simp only [Lexeme.isNameStart, Bool.or_eq_true] at start
    rcases start with letter | underscore
    · simp [Lexeme.isNameChar, Char.isAlphanum, letter]
    · simp [Lexeme.isNameChar, underscore]
  · exact others c mem

namespace Lexeme

namespace Number

/-- Digits, at least one. -/
def IsDigits (ds : List Char) : Prop := ds ≠ [] ∧ ∀ d ∈ ds, d.isDigit = true

/-- A whole part: zero, or digits of which the first is not zero. -/
def IsWhole (w : List Char) : Prop :=
  w = ['0'] ∨ ∃ d ds, w = d :: ds ∧ d ≠ '0' ∧ IsDigits (d :: ds)

/-- A fraction or nothing. -/
def IsFraction (f : List Char) : Prop := f = [] ∨ ∃ ds, f = '.' :: ds ∧ IsDigits ds

/-- An exponent or nothing. -/
def IsExponent (e : List Char) : Prop :=
  e = [] ∨ ∃ mark s ds, e = mark :: s ++ ds ∧ mark ∈ ['e', 'E'] ∧ s ∈ [[], ['+'], ['-']] ∧
    IsDigits ds

/-- The numbers that can be written. -/
def IsNumeral (cs : List Char) : Prop :=
  ∃ s w f e, cs = s ++ w ++ f ++ e ∧ s ∈ [[], ['-']] ∧ IsWhole w ∧ IsFraction f ∧ IsExponent e

/-- A text that does not begin with a digit. -/
def NoDigit (cs : List Char) : Prop := ∀ c ∈ cs.head?, c.isDigit = false

theorem isDigit_of_isBlank {c : Char} (h : Text.isBlank c = true) : c.isDigit = false := by
  cases digit : c.isDigit with
  | false => rfl
  | true =>
      obtain ⟨low, high⟩ := Text.toNat_of_isDigit digit
      rw [Text.isBlank_eq_false (by omega) (by omega)] at h
      cases h

theorem noDigit_of_blankLed {rest : List Char} (h : BlankLed rest) : NoDigit rest :=
  fun c mem => isDigit_of_isBlank (h c mem)

theorem takeWhile_digits {ds rest : List Char} (digits : ∀ d ∈ ds, d.isDigit = true)
    (stop : NoDigit rest) :
    (ds ++ rest).takeWhile Char.isDigit = ds ∧ (ds ++ rest).dropWhile Char.isDigit = rest :=
  takeWhile_append_stop digits stop

theorem whole?_append_of {w rest : List Char} (h : IsWhole w) (stop : NoDigit rest) :
    whole? (w ++ rest) = some (w, rest) := by
  rcases h with rfl | ⟨d, ds, rfl, nonzero, -, digits⟩
  · rfl
  · have others : ∀ c ∈ ds, c.isDigit = true := by
      intro c mem
      exact digits c (by simp [mem])
    obtain ⟨take, drop⟩ := takeWhile_digits others stop
    simp [whole?, nonzero, digits d (by simp), take, drop]

/-- A fraction ends where no digit follows, and where a fraction could begin if there is none. -/
theorem fraction_append_of {f rest : List Char} (h : IsFraction f) (stop : NoDigit rest)
    (point : ∀ more, rest = '.' :: more → NoDigit more) : fraction (f ++ rest) = (f, rest) := by
  rcases h with rfl | ⟨ds, rfl, ne, digits⟩
  · cases rest with
    | nil => rfl
    | cons c rest =>
        by_cases isPoint : c = '.'
        · subst isPoint
          have none : ([] ++ rest).takeWhile Char.isDigit = [] :=
            (takeWhile_digits (by simp) (point rest rfl)).1
          rw [List.nil_append] at none
          simp [fraction, none]
        · simp [fraction, isPoint]
  · obtain ⟨take, drop⟩ := takeWhile_digits digits stop
    simp [fraction, ne, take, drop]

theorem sign_append_of {signs s rest : List Char} (h : s = [] ∨ ∃ c ∈ signs, s = [c])
    (stop : ∀ c ∈ rest.head?, c ∉ signs) : sign signs (s ++ rest) = (s, rest) := by
  rcases h with rfl | ⟨c, mem, rfl⟩
  · cases rest with
    | nil => rfl
    | cons c rest => simp [sign, stop c (by simp)]
  · simp [sign, mem]

/-- Digits begin with none of the signs. -/
theorem head_notMem_of_isDigits {ds rest : List Char} (h : IsDigits ds) {signs : List Char}
    (none : ∀ c ∈ signs, c.isDigit = false) : ∀ c ∈ (ds ++ rest).head?, c ∉ signs := by
  obtain ⟨ne, digits⟩ := h
  cases ds with
  | nil => exact absurd rfl ne
  | cons d ds =>
      intro c mem isSign
      cases mem
      simpa [digits d (by simp)] using none d isSign

/-- An exponent ends where neither a digit nor a mark of an exponent follows. -/
theorem exponent_append_of {e rest : List Char} (h : IsExponent e) (stop : NoDigit rest)
    (mark : ∀ c ∈ rest.head?, c ∉ exponentMarks) : exponent (e ++ rest) = (e, rest) := by
  rcases h with rfl | ⟨m, s, ds, rfl, isMark, isSign, ds_digits⟩
  · cases rest with
    | nil => rfl
    | cons c rest => simp [exponent, mark c (by simp)]
  · have signs : s = [] ∨ ∃ c ∈ ['+', '-'], s = [c] := by simpa [or_comm] using isSign
    have split : sign ['+', '-'] (s ++ (ds ++ rest)) = (s, ds ++ rest) :=
      sign_append_of signs (head_notMem_of_isDigits ds_digits (by simp))
    obtain ⟨take, drop⟩ := takeWhile_digits ds_digits.2 stop
    simp only [List.cons_append, List.append_assoc, exponent, split, take, drop]
    rw [if_pos ⟨isMark, ds_digits.1⟩]

/-- A text that no number goes on with: it begins with no digit, no mark of an exponent, and no
point before a digit. -/
def Ends (rest : List Char) : Prop :=
  NoDigit rest ∧ (∀ c ∈ rest.head?, c ∉ exponentMarks) ∧
    ∀ more, rest = '.' :: more → NoDigit more

theorem ends_of_blankLed {rest : List Char} (blank : BlankLed rest) : Ends rest := by
  refine ⟨noDigit_of_blankLed blank, ?_, ?_⟩
  · intro c mem isMark
    have := blank c mem
    simp only [exponentMarks, List.mem_cons, List.not_mem_nil, or_false] at isMark
    rcases isMark with rfl | rfl <;> cases this
  · rintro more rfl
    cases blank '.' rfl

/-- A whole part begins with a digit, so the sign is all there is before it. -/
theorem sign_append_whole {s w : List Char} (isSign : s ∈ [[], ['-']]) (isWhole : IsWhole w)
    (rest : List Char) : sign ['-'] (s ++ (w ++ rest)) = (s, w ++ rest) := by
  have signs : s = [] ∨ ∃ c ∈ ['-'], s = [c] := by simpa using isSign
  apply sign_append_of signs
  rcases isWhole with rfl | ⟨d, ds, rfl, -, digits⟩
  · simp
  · exact head_notMem_of_isDigits digits (by simp)

/-- An exponent ends a fraction and a whole part before it: it begins with neither a digit nor a
point. -/
theorem IsExponent.behind {e : List Char} (h : IsExponent e) (rest : List Char)
    (stop : e = [] → NoDigit rest ∧ ∀ more, rest = '.' :: more → NoDigit more) :
    NoDigit (e ++ rest) ∧ ∀ more, e ++ rest = '.' :: more → NoDigit more := by
  rcases h with rfl | ⟨m, _, _, rfl, isMark, -⟩
  · exact stop rfl
  · simp only [List.mem_cons, List.not_mem_nil, or_false] at isMark
    rcases isMark with rfl | rfl <;> exact ⟨by simp [NoDigit], by simp⟩

/-- What stands behind a whole part begins with no digit if what stands behind the fraction does
not. -/
theorem IsFraction.noDigit {f rest : List Char} (h : IsFraction f) (stop : f = [] → NoDigit rest) :
    NoDigit (f ++ rest) := by
  rcases h with rfl | ⟨_, rfl, -⟩
  · exact stop rfl
  · simp [NoDigit]

/-- A number is split off as a whole if what follows does not go on with it. -/
theorem split?_append_of {cs rest : List Char} (h : IsNumeral cs) (ends : Ends rest) :
    split? (cs ++ rest) = some (cs, rest) := by
  obtain ⟨s, w, f, e, rfl, isSign, isWhole, isFraction, isExponent⟩ := h
  obtain ⟨stop, mark, point⟩ := ends
  -- each part ends where the next one begins, which is never with a digit
  have behindFraction := isExponent.behind rest fun _ => ⟨stop, point⟩
  have behindWhole := isFraction.noDigit fun _ => behindFraction.1
  simp only [split?, List.append_assoc, sign_append_whole isSign isWhole,
    whole?_append_of isWhole behindWhole, Option.bind_eq_bind, Option.bind_some,
    fraction_append_of isFraction behindFraction.1 behindFraction.2,
    exponent_append_of isExponent stop mark]
  rfl

theorem digit_ne_zero : ∀ n < 10, n ≠ 0 → Text.digit n ≠ '0' := by decide

/-- The numeral of a positive number does not begin with zero. -/
theorem exists_decimal_eq_cons {n : Nat} (pos : n ≠ 0) :
    ∃ d ds, Text.decimal n = d :: ds ∧ d ≠ '0' := by
  unfold Text.decimal
  induction n using Nat.strongRecOn with
  | _ n ih =>
      rw [Text.digits]
      split
      · next small => exact ⟨_, [], rfl, digit_ne_zero n (by omega) pos⟩
      · next large =>
        obtain ⟨d, ds, eq, nonzero⟩ := ih (n / 10) (by omega) (by omega)
        exact ⟨d, ds ++ [Text.digit (n % 10)], by rw [eq]; rfl, nonzero⟩

theorem isWhole_decimal (n : Nat) : IsWhole (Text.decimal n) := by
  by_cases zero : n = 0
  · subst zero
    exact .inl (by rw [Text.decimal, Text.digits]; rfl)
  · obtain ⟨d, ds, eq, nonzero⟩ := exists_decimal_eq_cons zero
    refine .inr ⟨d, ds, eq, nonzero, by simp, ?_⟩
    rw [← eq]
    exact Text.isDigit_of_mem_decimal n

/-- An integer is written as a number. -/
theorem isNumeral_signedDecimal (v : Int) : IsNumeral (Text.signedDecimal v) := by
  cases v with
  | ofNat n =>
      exact ⟨[], Text.decimal n, [], [], by simp [Text.signedDecimal], by simp, isWhole_decimal n,
        .inl rfl, .inl rfl⟩
  | negSucc n =>
      exact ⟨['-'], Text.decimal (n + 1), [], [], by simp [Text.signedDecimal], by simp,
        isWhole_decimal _, .inl rfl, .inl rfl⟩

/-- Numbers consist of signs, points, digits and letters. -/
theorem IsNumeral.toNat_of_mem {cs : List Char} (h : IsNumeral cs) :
    ∀ c ∈ cs, 40 ≤ c.toNat ∧ c.toNat ≤ 122 := by
  have digit : ∀ c : Char, c.isDigit = true → 40 ≤ c.toNat ∧ c.toNat ≤ 122 := by
    intro c isDigit
    have := Text.toNat_of_isDigit isDigit
    omega
  obtain ⟨s, w, f, e, rfl, isSign, isWhole, isFraction, isExponent⟩ := h
  simp only [List.mem_cons, List.not_mem_nil, or_false] at isSign
  intro c mem
  simp only [List.mem_append] at mem
  -- in the sign, the whole part, the fraction or the exponent
  rcases mem with ((mem | mem) | mem) | mem
  · rcases isSign with rfl | rfl
    · cases mem
    · cases List.mem_singleton.mp mem
      decide
  · rcases isWhole with rfl | ⟨d, ds, rfl, -, -, digits⟩
    · cases List.mem_singleton.mp mem
      decide
    · exact digit c (digits c mem)
  · rcases isFraction with rfl | ⟨ds, rfl, -, digits⟩
    · cases mem
    · rcases List.mem_cons.mp mem with rfl | mem
      · decide
      · exact digit c (digits c mem)
  · rcases isExponent with rfl | ⟨mark, sign, ds, rfl, isMark, isSign, -, digits⟩
    · cases mem
    · simp only [List.cons_append, List.mem_cons, List.mem_append, List.not_mem_nil,
        or_false] at mem isMark isSign
      rcases mem with rfl | mem | mem
      · rcases isMark with rfl | rfl <;> decide
      · rcases isSign with rfl | rfl | rfl
        · cases mem
        · cases List.mem_singleton.mp mem
          decide
        · cases List.mem_singleton.mp mem
          decide
      · exact digit c (digits c mem)

theorem ne_quote_of_begins {c : Char} (h : c = '-' ∨ c.isDigit = true) :
    ¬ (c = '"' ∨ c = '\'') := by
  rintro (rfl | rfl) <;> simp at h

/-- A number begins with a minus sign or a digit. -/
theorem IsNumeral.exists_eq_cons {cs : List Char} (h : IsNumeral cs) :
    ∃ c rest, cs = c :: rest ∧ (c = '-' ∨ c.isDigit = true) := by
  obtain ⟨s, w, f, e, rfl, isSign, isWhole, -, -⟩ := h
  simp only [List.mem_cons, List.not_mem_nil, or_false] at isSign
  rcases isSign with rfl | rfl
  · rcases isWhole with rfl | ⟨d, ds, rfl, -, -, digits⟩
    · exact ⟨_, _, rfl, .inr rfl⟩
    · exact ⟨_, _, rfl, .inr (digits d (by simp))⟩
  · exact ⟨_, _, rfl, .inl rfl⟩

end Number

end Lexeme

end SheetMarkup
