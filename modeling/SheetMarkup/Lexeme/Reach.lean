/-!
# Furthest refusals

When characters cannot be read, the report is about the furthest place at which some reading was
refused, and it lists what would have been accepted there. A `Reach` is such a place together with
the list; `join` keeps the further one of two and unites the lists at one and the same place.
-/

namespace SheetMarkup

/-- The furthest refusal of a reading: its distance from where the reading began and the characters
that would have been accepted there, `none` for the end. -/
structure Reach where
  offset : Nat
  expected : List (Option Char)
deriving DecidableEq, Repr

namespace Reach

/-- No refusal worth a report. -/
def start : Reach := ⟨0, []⟩

/-- The further one of two, or both at once. -/
def join (a b : Reach) : Reach :=
  if a.offset < b.offset then b
  else if b.offset < a.offset then a
  else ⟨a.offset, a.expected ++ b.expected⟩

/-- The same refusal seen from a place that lies `n` characters before. -/
def shift (n : Nat) (a : Reach) : Reach := { a with offset := n + a.offset }

end Reach

end SheetMarkup
