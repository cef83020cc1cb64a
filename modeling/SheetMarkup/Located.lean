import SheetMarkup.Text.Numeral

/-!
# Located reports

A report says what is wrong and, as far as that is known, in which file and on which line. It is
raised deep inside a template, often without a place; those who pass it on add the place they know,
and a place that is already there stays.
-/

namespace SheetMarkup

/-- A report of kind `ε` with the place it is about. -/
structure Located (ε : Type) where
  cause : ε
  file : Option String
  line : Option Nat
deriving DecidableEq, Repr

namespace Located

variable {ε : Type}

/-- A report that has no place yet. -/
def unplaced (cause : ε) : Located ε := ⟨cause, none, none⟩

/-- A report about a line. -/
def onLine (cause : ε) (line : Nat) : Located ε := ⟨cause, none, some line⟩

/-- Adds the line, unless one is known. -/
def orLine (report : Located ε) (line : Nat) : Located ε :=
  { report with line := report.line.or (some line) }

/-- Adds the file, unless one is known. -/
def orFile (report : Located ε) (file : String) : Located ε :=
  { report with file := report.file.or (some file) }

/-- The place as it stands before the message. -/
def place (report : Located ε) : String :=
  let number (line : Nat) := String.ofList (Text.decimal line)
  match report.file, report.line with
  | some file, some line => file ++ ":" ++ number line ++ ": "
  | some file, none => file ++ ": "
  | none, some line => "line " ++ number line ++ ": "
  | none, none => ""

/-- The report in one line: its place, then its message. -/
def display (message : ε → String) (report : Located ε) : String :=
  report.place ++ message report.cause

/-- A known line stays. -/
theorem orLine_of_line {report : Located ε} {known : Nat} (h : report.line = some known)
    (line : Nat) : report.orLine line = report := by
  cases report; cases h; rfl

end Located

end SheetMarkup
