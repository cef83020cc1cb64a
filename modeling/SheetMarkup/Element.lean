/-!
# Spreadsheet elements

The structured part of a template describes a workbook by ten elements, each with a tag of its own
and with the elements it may stand in.
-/

namespace SheetMarkup

/-- The elements of a spreadsheet document. -/
inductive Element where
  | workbook
  | sheet
  | row
  | cell
  | header
  | footer
  | drawing
  | left
  | center
  | right
deriving DecidableEq, Repr

namespace Element

/-- The name of the tag that opens an element. -/
def tag : Element → String
  | workbook => "workbook"
  | sheet => "sheet"
  | row => "row"
  | cell => "cell"
  | header => "header"
  | footer => "footer"
  | drawing => "drawing"
  | left => "left"
  | center => "center"
  | right => "right"

/-- All elements. -/
def all : List Element :=
  [workbook, sheet, row, cell, header, footer, drawing, left, center, right]

theorem mem_all (element : Element) : element ∈ all := by cases element <;> decide

/-- The element that a tag opens. -/
def ofTag? (name : String) : Option Element := all.find? fun element => element.tag = name

/-- The elements that may be the nearest element around this one. Where there is no element around
it at all, every element may stand. -/
def parents : Element → List Element
  | workbook => []
  | sheet => [workbook]
  | row => [sheet]
  | cell => [row]
  | header | footer => [sheet]
  | left | center | right => [header, footer]
  | drawing => [sheet, left, center, right]

end Element

end SheetMarkup
