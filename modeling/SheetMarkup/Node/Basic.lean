import SheetMarkup.Element
import SheetMarkup.Expr.Basic
import SheetMarkup.OrderedMap

/-!
# Template nodes

A template is a tree. Its leaves are texts and printed values; conditions, loops and macros have
bodies; the document root and the elements make up the structured part. Trees are walked through
`children`, in the order of the source, and proofs about them go by `Node.inductionOn`.
-/

namespace SheetMarkup

/-- A node and the line it starts on. Parameters and attributes keep their order. -/
inductive Node where
  | list (line : Nat) (nodes : List Node)
  | text (line : Nat) (value : String)
  | print (line : Nat) (value : Expr)
  | choice (line : Nat) (condition : Expr) (thenBody : Node) (elseBody : Option Node)
  | loop (line : Nat) (binding : String) (iterable : Expr) (body : Node)
  | definition (line : Nat) (name : String) (arguments : List String) (body : Node)
  | root (line : Nat) (attributes : OrderedMap String) (workbook : Node)
  | element (line : Nat) (element : Element) (parameters : OrderedMap Expr) (body : Option Node)

deriving instance BEq for Node

/-- What sort of node a node is. -/
inductive Node.Kind where
  | list
  | text
  | print
  | choice
  | loop
  | definition
  | root
  | element (element : Element)
deriving DecidableEq, Repr

/-- A named template. -/
structure Template where
  file : String
  body : Node

namespace Node

instance : Inhabited Node := ⟨.list 1 []⟩

/-- What a sort of node is called. -/
def Kind.display : Kind → String
  | .list => "list"
  | .text => "text"
  | .print => "print"
  | .choice => "if"
  | .loop => "for"
  | .definition => "macro"
  | .root => "document-root"
  | .element e => e.tag

/-- The sort of a node. -/
def kind : Node → Kind
  | list .. => .list
  | text .. => .text
  | print .. => .print
  | choice .. => .choice
  | loop .. => .loop
  | definition .. => .definition
  | root .. => .root
  | element _ e _ _ => .element e

/-- The line a node starts on. -/
def line : Node → Nat
  | list n _ | text n _ | print n _ | choice n _ _ _ | loop n _ _ _ | definition n _ _ _
  | root n _ _ | element n _ _ _ => n

/-- The nodes directly below, in the order of the source. -/
def children : Node → List Node
  | list _ nodes => nodes
  | text .. | print .. => []
  | choice _ _ thenBody elseBody => thenBody :: elseBody.toList
  | loop _ _ _ body => [body]
  | definition _ _ _ body => [body]
  | root _ _ workbook => [workbook]
  | element _ _ _ body => body.toList

theorem sizeOf_lt_of_mem_children {child node : Node} (h : child ∈ node.children) :
    sizeOf child < sizeOf node := by
  cases node with
  | list _ nodes =>
    have : sizeOf child < sizeOf nodes := List.sizeOf_lt_of_mem h
    simp only [list.sizeOf_spec]
    omega
  | text | print => cases h
  | choice _ _ thenBody elseBody =>
    cases elseBody <;> simp only [children, Option.toList, List.mem_cons, List.not_mem_nil,
      or_false] at h
    · subst h; simp only [choice.sizeOf_spec]; omega
    · rcases h with rfl | rfl <;> simp only [choice.sizeOf_spec, Option.some.sizeOf_spec] <;> omega
  | loop | definition | root =>
    simp only [children, List.mem_singleton] at h
    subst h
    simp only [loop.sizeOf_spec, definition.sizeOf_spec, root.sizeOf_spec]
    omega
  | element _ _ _ body =>
    cases body with
    | none => cases h
    | some body =>
      simp only [children, Option.toList, List.mem_singleton] at h
      subst h
      simp only [element.sizeOf_spec, Option.some.sizeOf_spec]
      omega

/-- What holds of a node as soon as it holds of its children holds of every node. -/
theorem inductionOn {P : Node → Prop} (step : ∀ node, (∀ child ∈ node.children, P child) → P node)
    (node : Node) : P node :=
  step node fun child _ => inductionOn step child
termination_by sizeOf node
decreasing_by exact sizeOf_lt_of_mem_children ‹_›

end Node

end SheetMarkup
