import SheetMarkup.Node.Basic

/-!
# Outlines

The outline of a template shows its tree, one node to a line and every node two spaces deeper than
the one above it: the sort of the node, its line in the source, and what it holds apart from other
nodes.
-/

namespace SheetMarkup

namespace Node

/-- A named value, after a space. -/
def field (name : String) (value : List Char) : List Char := ' ' :: name.toList ++ '=' :: value

/-- Names with commas between them. -/
def nameList (names : List String) : List Char := (", ".intercalate names).toList

/-- What a node holds apart from other nodes. -/
def details : Node → List Char
  | list .. => []
  | text _ value => ' ' :: Text.quoted value.toList
  | print _ value => ' ' :: value.spelling
  | choice _ condition _ _ => ' ' :: condition.spelling
  | loop _ binding iterable _ => ' ' :: binding.toList ++ " in ".toList ++ iterable.spelling
  | definition _ name arguments _ => ' ' :: name.toList ++ '(' :: nameList arguments ++ [')']
  | root _ attributes _ =>
    attributes.entries.flatMap fun (name, value) => field name (Text.quoted value.toList)
  | element _ _ parameters _ =>
    parameters.entries.flatMap fun (name, value) => field name value.spelling

/-- What the line of a node says. -/
def heading (node : Node) : List Char :=
  node.kind.display.toList ++ " @".toList ++ Text.decimal node.line ++ node.details

/-- The line of a node that lies this deep. -/
def row (depth : Nat) (node : Node) : List Char :=
  List.replicate (2 * depth) ' ' ++ node.heading ++ ['\n']

/-- A node and all below it from above to below, each with its depth: a node comes before its
children, and a child with all below it before the next one. -/
def levels (depth : Nat) (node : Node) : List (Nat × Node) :=
  (depth, node) :: node.children.attach.flatMap fun child => child.1.levels (depth + 1)
termination_by sizeOf node
decreasing_by exact sizeOf_lt_of_mem_children child.2

theorem levels_eq (depth : Nat) (node : Node) :
    node.levels depth = (depth, node) :: node.children.flatMap (levels (depth + 1)) := by
  rw [levels]
  simp [List.flatMap_def]

/-- The outline of a node. -/
def outline (node : Node) : List Char :=
  (node.levels 0).flatMap fun (depth, node) => node.row depth

end Node

/-- The outline of a template. -/
def Template.outline (template : Template) : String := String.ofList template.body.outline

end SheetMarkup
