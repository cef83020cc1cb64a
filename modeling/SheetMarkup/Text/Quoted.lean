import SheetMarkup.Text.Numeral
import SheetMarkup.Text.Printable

/-!
# Quoted text

A text is shown between double quotes. The quote, the backslash and four control characters have a
short escape, every other character that is not printable is written `\u{hex}`, and the rest stand
for themselves, the single quote among them.
-/

namespace SheetMarkup.Text

/-- How one character is written between double quotes. -/
def quoteChar (c : Char) : List Char :=
  if c = '"' then ['\\', '"']
  else if c = '\\' then ['\\', '\\']
  else if c = '\n' then ['\\', 'n']
  else if c = '\r' then ['\\', 'r']
  else if c = '\t' then ['\\', 't']
  else if c = '\x00' then ['\\', '0']
  else if isPrintable c then [c]
  else ['\\', 'u', '{'] ++ digits 16 c.toNat ++ ['}']

/-- The characters of a quoted text. -/
def quoted (cs : List Char) : List Char := '"' :: cs.flatMap quoteChar ++ ['"']

/-- A string between double quotes. -/
def quote (s : String) : String := String.ofList (quoted s.toList)

end SheetMarkup.Text
