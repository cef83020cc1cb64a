/-!
# Blank characters and lines

Blank characters are the members of the Unicode property `White_Space`. Texts are trimmed by them
and the tokens inside a tag are padded with them. Lines are counted by line feeds alone.
-/

namespace SheetMarkup.Text

/-- The Unicode property `White_Space`. -/
def isBlank (c : Char) : Bool :=
  let n := c.toNat
  (9 ≤ n && n ≤ 13) || n == 0x20 || n == 0x85 || n == 0xA0 || n == 0x1680 ||
    (0x2000 ≤ n && n ≤ 0x200A) || n == 0x2028 || n == 0x2029 || n == 0x202F || n == 0x205F ||
    n == 0x3000

/-- The text without its leading blanks. -/
def trimStart (cs : List Char) : List Char := cs.dropWhile isBlank

/-- The text without its trailing blanks. -/
def trimEnd (cs : List Char) : List Char := (cs.reverse.dropWhile isBlank).reverse

/-- The text without its leading and trailing blanks. -/
def trim (cs : List Char) : List Char := trimEnd (trimStart cs)

/-- The number of line feeds in a text, hence the number of lines by which it moves on. -/
def lineFeeds (cs : List Char) : Nat := cs.count '\n'

/-- Trimming the end only removes blanks: they can be put back. -/
theorem exists_blanks_append_trimEnd (cs : List Char) :
    ∃ blanks, cs = trimEnd cs ++ blanks ∧ ∀ c ∈ blanks, isBlank c = true := by
  refine ⟨(cs.reverse.takeWhile isBlank).reverse, ?_, ?_⟩
  · rw [trimEnd, ← List.reverse_append, List.takeWhile_append_dropWhile, List.reverse_reverse]
  · intro c hc
    exact List.all_eq_true.mp (List.all_takeWhile (l := cs.reverse) (p := isBlank)) c
      (List.mem_reverse.mp hc)

theorem lineFeeds_append (a b : List Char) : lineFeeds (a ++ b) = lineFeeds a + lineFeeds b :=
  List.count_append

end SheetMarkup.Text
