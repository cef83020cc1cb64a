import SheetMarkup.Element
import SheetMarkup.Located
import SheetMarkup.Source.Tag

/-!
# What can be wrong with a template

Everything that is reported about a template has one of these causes. `Cause.message` gives their
wording. The things that would have been accepted are listed in the order of their written forms,
each once, so that a report does not depend on how they were found.
-/

namespace SheetMarkup

/-- The causes of reports. -/
inductive Cause where
  /-- A tag or comment that is never closed. -/
  | unclosed (opener : Opener)
  /-- A character inside a tag, or its end, where something else was expected. -/
  | refusedChar (found : Option Char) (expected : List (Option Char))
  /-- A run of `!` and `=` that is no operator. -/
  | unknownOperator
  /-- A `\u` escape with the code of a surrogate. -/
  | surrogateCode
  /-- A token that no expression can go on with. -/
  | refusedToken (found : Option Token.Kind) (expected : List Symbol)
  /-- The template ends where more was needed. -/
  | endOfTemplate
  /-- A token that cannot stand between tags. -/
  | strayToken (found : Token.Kind)
  /-- A token where another one was needed. -/
  | otherToken (found : Token.Kind) (wanted : String)
  /-- A block tag that does not begin with a name. -/
  | namelessTag
  /-- An end tag, or `else`, that nothing waits for. -/
  | unexpectedTag (name : String)
  /-- A tag that is not known. -/
  | unknownTag (name : String)
  /-- A parameter without default that no expression was left for. -/
  | missingParameter
  /-- Expressions that no parameter was left for. -/
  | tooManyParameters
  /-- A directive that declares a parameter name twice. -/
  | declaredTwice (name : String)
  /-- An element inside of one that it may not stand in. -/
  | misplacedElement (element parent : Element)
  /-- Text that follows a document root. -/
  | textAfterRoot
  /-- A document root that follows text. -/
  | textBeforeRoot
deriving DecidableEq, Repr

/-- A report about a template. -/
abbrev Report := Located Cause

namespace Cause

/-- Texts in order, each once. -/
def ordered (items : List String) : List String :=
  -- equal texts are neighbours once they are in order
  (items.mergeSort fun a b => decide (a ≤ b)).eraseReps

/-- What was found, and what was expected in its place. -/
def refusal (found : String) (expected : List String) : String :=
  "found " ++ found ++
    match ordered expected with
    | [] => ""
    | [item] => " but expected " ++ item
    | items => " but expected one of " ++ ", ".intercalate items

/-- What an input is called once it has ended. -/
def endOfInput : String := "end of input"

/-- A character, or the end, in a report. -/
def showChar : Option Char → String
  | some c => Text.quote (String.singleton c)
  | none => endOfInput

/-- A token, or the end, in a report. -/
def showKind : Option Token.Kind → String
  | some kind => Text.quote kind.display
  | none => endOfInput

/-- The wording of a cause. -/
def message : Cause → String
  | unclosed (.tag form) => "Unclosed \"" ++ form.name ++ "\""
  | unclosed .comment => "Unclosed comment"
  | refusedChar found expected => refusal (showChar found) (expected.map showChar)
  | unknownOperator | surrogateCode => refusal endOfInput []
  | refusedToken found expected =>
    refusal (showKind found) (expected.map fun symbol => Text.quote symbol.spelling)
  | endOfTemplate => "Unexpected end of template."
  | strayToken found => "Unexpected token \"" ++ found.display ++ "\"."
  | otherToken found wanted =>
    "Unexpected token \"" ++ found.display ++ "\" (expected \"" ++ wanted ++ "\")."
  | namelessTag => "A block must start with a tag name."
  | unexpectedTag name => "Unexpected \"" ++ name ++ "\" tag."
  | unknownTag name => "Unknown \"" ++ name ++ "\" tag."
  | missingParameter => "A required parameter is missing"
  | tooManyParameters => "Too many parameters"
  | declaredTwice name => "parameter " ++ Text.quote name ++ " declared twice"
  | misplacedElement element parent =>
    "Node \"" ++ element.tag ++ "\" is not allowed inside of Node \"" ++ parent.tag ++ "\"."
  | textAfterRoot => "Node \"text\" is not allowed after Node \"document-root\"."
  | textBeforeRoot => "Node \"text\" is not allowed before Node \"document-root\"."

end Cause

/-- A report in one line. -/
def Report.display (report : Report) : String := Located.display Cause.message report

end SheetMarkup
