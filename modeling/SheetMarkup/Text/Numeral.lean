/-!
# Positional numerals

Numbers are written with the fewest digits of a base, high digit first and in lower case, and read
back by `value`. Reading a written number gives the number again (`value_digits`). Machine integers
are read from an optional minus sign and decimal digits, within the range of 64 bits, and read back
as they were written (`readInt64?_signedDecimal`).
-/

namespace SheetMarkup.Text

/-- The digit that stands for `n`: `0` to `9`, then the lower-case letters from `a` on. -/
def digit (n : Nat) : Char := Char.ofNat (if n < 10 then 48 + n else 87 + n)

/-- What a digit stands for. Letters count in either case. -/
def digitValue (c : Char) : Nat :=
  if c.isDigit then c.toNat - 48 else if c.isLower then c.toNat - 87 else c.toNat - 55

/-- The numeral of `n` in a base of at least two, without leading zeros. -/
def digits (base n : Nat) : List Char :=
  if n < base ∨ base < 2 then [digit n]
  else digits base (n / base) ++ [digit (n % base)]
termination_by n
decreasing_by exact Nat.div_lt_self (by omega) (by omega)

/-- The number that a numeral stands for. -/
def value (base : Nat) (ds : List Char) : Nat :=
  ds.foldl (fun v c => base * v + digitValue c) 0

/-- The decimal numeral of a natural number. -/
def decimal (n : Nat) : List Char := digits 10 n

/-- The decimal numeral of an integer: a minus sign stands before the digits of a negative one. -/
def signedDecimal : Int → List Char
  | .ofNat n => decimal n
  | .negSucc n => '-' :: decimal (n + 1)

/-- The integer as a 64-bit one, if it fits. -/
def int64? (v : Int) : Option Int64 :=
  if Int64.minValue.toInt ≤ v ∧ v ≤ Int64.maxValue.toInt then some (Int64.ofInt v) else none

/-- Reads a whole text as a 64-bit integer: digits, after a minus sign or none. -/
def readInt64? : List Char → Option Int64
  | '-' :: ds => if ds ≠ [] ∧ ds.all Char.isDigit then int64? (-(value 10 ds : Int)) else none
  | ds => if ds ≠ [] ∧ ds.all Char.isDigit then int64? (value 10 ds) else none

/-! ## Written numbers read back -/

theorem digitValue_digit : ∀ n < 16, digitValue (digit n) = n := by decide

theorem value_append_singleton (base : Nat) (ds : List Char) (c : Char) :
    value base (ds ++ [c]) = base * value base ds + digitValue c := by
  simp [value]

/-- A numeral stands for the number it was written for. -/
theorem value_digits {base : Nat} (two_le : 2 ≤ base) (le_sixteen : base ≤ 16) (n : Nat) :
    value base (digits base n) = n := by
  induction n using Nat.strongRecOn with
  | _ n ih =>
    rw [digits]
    split
    · next h => simp [value, digitValue_digit n (by omega)]
    · next h =>
      rw [value_append_singleton, ih (n / base) (Nat.div_lt_self (by omega) (by omega)),
        digitValue_digit _ (by have := Nat.mod_lt n (show 0 < base by omega); omega)]
      exact Nat.div_add_mod n base

theorem isDigit_digit : ∀ n < 10, (digit n).isDigit := by decide

theorem isDigit_of_mem_decimal (n : Nat) : ∀ c ∈ decimal n, c.isDigit := by
  unfold decimal
  induction n using Nat.strongRecOn with
  | _ n ih =>
    rw [digits]
    split
    · next h => simp [isDigit_digit n (by omega)]
    · next h =>
      intro c hc
      rw [List.mem_append, List.mem_singleton] at hc
      rcases hc with hc | rfl
      · exact ih (n / 10) (Nat.div_lt_self (by omega) (by omega)) c hc
      · exact isDigit_digit _ (Nat.mod_lt n (by omega))

theorem decimal_ne_nil (n : Nat) : decimal n ≠ [] := by
  unfold decimal
  rw [digits]
  split <;> simp

theorem int64?_toInt (v : Int64) : int64? v.toInt = some v := by
  have lower := v.minValue_le_toInt
  have upper := v.toInt_le
  rw [int64?, if_pos ⟨lower, by simpa using upper⟩, Int64.ofInt_toInt]

/-- A written 64-bit integer reads back. -/
theorem readInt64?_signedDecimal (v : Int64) : readInt64? (signedDecimal v.toInt) = some v := by
  have written (n : Nat) : decimal n ≠ [] ∧ (decimal n).all Char.isDigit :=
    ⟨decimal_ne_nil n, List.all_eq_true.mpr (isDigit_of_mem_decimal n)⟩
  have read (n : Nat) : value 10 (decimal n) = n := value_digits (by omega) (by omega) n
  rw [← int64?_toInt v]
  cases v.toInt with
  | negSucc n => simp only [signedDecimal, readInt64?, if_pos (written _), read]; rfl
  | ofNat n =>
    have noSign : ∀ ds, decimal n ≠ '-' :: ds := by
      intro ds starts
      have := isDigit_of_mem_decimal n '-' (by simp [starts])
      contradiction
    simp only [signedDecimal]
    rw [readInt64?.eq_2 _ noSign, if_pos (written n), read]
    rfl

end SheetMarkup.Text
