import SheetMarkup.Node.Basic
import SheetMarkup.Schema
import SheetMarkup.Token.Basic

/-!
# Directives and dialects

A directive is a block tag beside the host tags `if`, `for` and `macro`: it has a name, parameters,
which may depend on where the name stands, and a body up to its end tag or none, and it makes a node
of them, whatever node that is. A dialect is a choice of directives. The one for spreadsheets has a
directive for every element; that of the workbook also makes the document root around it, which
carries the attributes of the document.
-/

namespace SheetMarkup

/-- A directive: its tag, whether it has a body, the parameters that it declares for a tag whose
name is this token, and the node that it makes of the line of the tag, of what is bound to its
parameters and of its body. -/
structure Directive where
  tag : String
  hasBody : Bool
  parameters : Token → List Parameter
  node : Nat → OrderedMap Expr → Option Node → Node

/-- The directives that a template may use beside the host tags. -/
structure Dialect where
  directives : List Directive

/-- The name of the tag that ends the body. -/
def Directive.endTag (directive : Directive) : String := "end" ++ directive.tag

namespace Element

/-- An optional parameter for an array, which is empty by default. -/
def optionalArray (name : String) : Parameter := ⟨name, .array, some (.list [])⟩

/-- An optional parameter for a value, which is null by default. -/
def optionalValue (name : String) : Parameter := ⟨name, .value, some .null⟩

/-- A required parameter for a value. -/
def requiredValue (name : String) : Parameter := ⟨name, .value, none⟩

/-- The parameters of an element's tag. -/
def parameters : Element → List Parameter
  | workbook => [optionalArray "properties"]
  | sheet => [requiredValue "index", optionalArray "properties"]
  | row => [optionalValue "index"]
  | cell => [optionalValue "index", optionalArray "properties"]
  | header | footer => [optionalValue "type", optionalArray "properties"]
  | drawing => [requiredValue "path", optionalArray "properties"]
  | left | center | right => []

/-- The node that the directive of an element makes: the element, and for a workbook the document
root around it. -/
def node (attributes : OrderedMap String) (element : Element) (line : Nat)
    (parameters : OrderedMap Expr) (body : Option Node) : Node :=
  match element with
  | workbook => .root line attributes (.element line .workbook parameters body)
  | other => .element line other parameters body

theorem node_workbook (attributes : OrderedMap String) (line : Nat)
    (parameters : OrderedMap Expr) (body : Option Node) :
    workbook.node attributes line parameters body =
      .root line attributes (.element line .workbook parameters body) := rfl

theorem node_of_ne_workbook {element : Element} (other : element ≠ workbook)
    (attributes : OrderedMap String) (line : Nat) (parameters : OrderedMap Expr)
    (body : Option Node) :
    element.node attributes line parameters body = .element line element parameters body := by
  cases element with
  | workbook => exact absurd rfl other
  | _ => rfl

/-- The directive of an element, for a document with these attributes. Only a drawing has no
body. -/
def directive (attributes : OrderedMap String) (element : Element) : Directive where
  tag := element.tag
  hasBody := element ≠ drawing
  parameters _ := element.parameters
  node := element.node attributes

theorem node_directive (attributes : OrderedMap String) (element : Element) :
    (element.directive attributes).node = element.node attributes := rfl

end Element

namespace Dialect

/-- The host tags alone. -/
def host : Dialect := ⟨[]⟩

/-- Adds a directive, in place of any other with its tag. -/
def register (dialect : Dialect) (directive : Directive) : Dialect :=
  ⟨directive :: dialect.directives.filter fun other => other.tag ≠ directive.tag⟩

/-- The host tags and the elements of a spreadsheet with these attributes. -/
def spreadsheet (attributes : OrderedMap String) : Dialect :=
  (Element.all.map (Element.directive attributes)).foldl register host

/-- The directive with a tag. -/
def find? (dialect : Dialect) (tag : String) : Option Directive :=
  dialect.directives.find? fun directive => directive.tag = tag

theorem find?_register (dialect : Dialect) (directive : Directive) (tag : String) :
    (dialect.register directive).find? tag =
      if directive.tag = tag then some directive else dialect.find? tag := by
  by_cases h : directive.tag = tag
  · simp [register, find?, h]
  · simp only [register, find?, h, decide_false, List.find?_cons_of_neg, if_false,
      Bool.false_eq_true, not_false_eq_true, List.find?_filter]
    congr 1
    funext other
    by_cases ho : other.tag = tag
    · simp [ho, Ne.symm h]
    · simp [ho]

end Dialect

end SheetMarkup
