import SheetMarkup.Cause
import SheetMarkup.Node.Basic

/-!
# Where nodes may stand

An element must have one of its parents as the nearest element around it, unless there is no element
around it at all. Text and a document root may not be siblings, except below an element. The check
walks a tree with the path of the nodes that are open; it leaves the path as it was if the tree
passes, and empty if not.
-/

namespace SheetMarkup

/-- The sorts of the nodes that are open, innermost first. -/
structure Path where
  kinds : List Node.Kind
deriving DecidableEq, Repr

namespace Path

/-- No node is open. -/
def empty : Path := ⟨[]⟩

/-- Opens a node. -/
def push (path : Path) (kind : Node.Kind) : Path := ⟨kind :: path.kinds⟩

/-- The sort of the innermost open node. -/
def last? (path : Path) : Option Node.Kind := path.kinds.head?

/-- Closes the innermost open node. -/
def pop (path : Path) : Path := ⟨path.kinds.tail⟩

/-- The innermost open element. -/
def nearest? (path : Path) : Option Element :=
  path.kinds.findSome? fun
    | .element e => some e
    | _ => none

end Path

namespace Node

/-- What is wrong with an element below this path. -/
def parentFault (path : Path) (line : Nat) (element : Element) : Option Report :=
  match path.nearest? with
  | none => none
  | some parent =>
    if parent ∈ element.parents then none
    else some (.onLine (.misplacedElement element parent) line)

/-- The first text behind a document root, or document root behind a text, among siblings. Whether
there were texts and roots before is known. -/
def siblingFault (texts roots : Bool) : List Node → Option Report
  | [] => none
  | .text line _ :: more =>
    if roots then some (.onLine .textAfterRoot line) else siblingFault true roots more
  | .root line _ _ :: more =>
    if texts then some (.onLine .textBeforeRoot line) else siblingFault texts true more
  | _ :: more => siblingFault texts roots more

/-- What is wrong with a node itself below this path. -/
def fault (path : Path) (node : Node) : Option Report :=
  match node with
  | .element line e _ _ => parentFault path line e
  | _ => siblingFault false false node.children

/-- Opens a node, if it may stand here. -/
def enter (node : Node) : EStateM Report Path Unit := fun path =>
  match node.fault path with
  | some report => .error report .empty
  | none => .ok () (path.push node.kind)

/-- Closes the innermost open node. -/
def leave : EStateM Report Path Unit := fun path => .ok () path.pop

/-- Checks a node and everything below it. -/
def check (node : Node) : EStateM Report Path Unit := do
  node.enter
  node.children.attach.forM fun child => child.1.check
  leave
termination_by sizeOf node
decreasing_by exact sizeOf_lt_of_mem_children child.2

theorem check_eq (node : Node) : node.check = (do
    node.enter
    node.children.forM check
    leave) := by
  rw [check]
  -- the proofs of membership only serve the recursion
  have each := List.forM_map (l := node.children.attach) (g := Subtype.val) (f := check)
  rw [List.attach_map_subtype_val] at each
  simp only [List.forM_eq_forM] at each ⊢
  rw [each]

end Node

/-- A template whose nodes all stand where they may. Reports are about its file. -/
def Template.check (template : Template) : Except Report Template :=
  match template.body.check .empty with
  | .ok _ _ => .ok template
  | .error report _ => .error (report.orFile template.file)

end SheetMarkup
