import SheetMarkup.Proofs.Placement
import SheetMarkup.Proofs.Template.Origin

/-!
# Paths in a tree

An occurrence of a node carries the nodes around it, and each of them occurs in the tree as well:
the innermost is the parent of the node (`Node.exists_parent_of_mem_occurrences`). What is on the
way from the root of the tree to a node is therefore reached by going from parent to parent, and a
statement about all ways is proved by induction on the nodes around
(`Node.exists_child_of_mem_around`).
-/

namespace SheetMarkup.Node

/-- What occurs in a tree is its root, or occurs in a child of the root. -/
theorem mem_occurrences_iff {node : Node} {around : List Node} {o : Occurrence} :
    o ∈ node.occurrences around ↔
      o = ⟨around, node⟩ ∨ ∃ child ∈ node.children, o ∈ child.occurrences (node :: around) := by
  rw [occurrences_eq, List.mem_cons, List.mem_flatMap]

/-- A node occurs in its tree below the nodes around it. -/
theorem self_mem_occurrences (around : List Node) (node : Node) :
    ⟨around, node⟩ ∈ node.occurrences around := mem_occurrences_iff.mpr (.inl rfl)

/-- What occurs in a child occurs in the node. -/
theorem mem_occurrences_of_mem_children {node child : Node} {around : List Node} {o : Occurrence}
    (mem : child ∈ node.children) (h : o ∈ child.occurrences (node :: around)) :
    o ∈ node.occurrences around := mem_occurrences_iff.mpr (.inr ⟨child, mem, h⟩)

/-- What holds throughout a tree holds throughout the tree of each node in it. -/
theorem Throughout.of_mem_occurrences {P : Node → Prop} {node : Node} (h : node.Throughout P)
    {around : List Node} {o : Occurrence} (mem : o ∈ node.occurrences around) :
    o.node.Throughout P := by
  induction node using Node.inductionOn generalizing around with
  | step node ih =>
      rcases mem_occurrences_iff.mp mem with rfl | ⟨child, child_mem, mem⟩
      · exact h
      · exact ih child child_mem (h.of_mem_children child child_mem) mem

/-- A node in a tree is the root of the tree, or else it is a child of the innermost node around it,
which is in the tree as well. -/
theorem exists_parent_of_mem_occurrences {node : Node} {around : List Node} {o : Occurrence}
    (mem : o ∈ node.occurrences around) :
    o = ⟨around, node⟩ ∨ ∃ parent outer, o.around = parent :: outer ∧ o.node ∈ parent.children ∧
      ⟨outer, parent⟩ ∈ node.occurrences around := by
  induction node using Node.inductionOn generalizing around with
  | step node ih =>
      rcases mem_occurrences_iff.mp mem with rfl | ⟨child, child_mem, mem⟩
      · exact .inl rfl
      · refine .inr ?_
        rcases ih child child_mem mem with rfl | ⟨parent, outer, eq, below, parent_mem⟩
        · exact ⟨node, around, rfl, child_mem, self_mem_occurrences around node⟩
        · exact ⟨parent, outer, eq, below, mem_occurrences_of_mem_children child_mem parent_mem⟩

/-- The children of a node in a tree are in the tree, right below it. -/
theorem child_mem_occurrences {node : Node} {around : List Node} {o : Occurrence}
    (mem : o ∈ node.occurrences around) (child : Node) (below : child ∈ o.node.children) :
    ⟨o.node :: o.around, child⟩ ∈ node.occurrences around := by
  induction node using Node.inductionOn generalizing around with
  | step node ih =>
      rcases mem_occurrences_iff.mp mem with rfl | ⟨other, other_mem, mem⟩
      · exact mem_occurrences_of_mem_children below (self_mem_occurrences _ child)
      · exact mem_occurrences_of_mem_children other_mem (ih other other_mem mem)

/-- A node around another one is in the tree as well, and one of its children is on the way. -/
theorem exists_child_of_mem_around {node : Node} {o : Occurrence} (mem : o ∈ node.occurrences [])
    {outer : Node} (h : outer ∈ o.around) :
    ∃ rest child, ⟨rest, outer⟩ ∈ node.occurrences [] ∧ child ∈ outer.children ∧
      child ∈ o.node :: o.around := by
  obtain ⟨around, n⟩ := o
  induction around generalizing n with
  | nil => cases h
  | cons parent around ih =>
      rcases exists_parent_of_mem_occurrences mem with root | ⟨_, _, eq, below, parent_mem⟩
      · cases congrArg Occurrence.around root
      · cases eq
        rcases List.mem_cons.mp h with rfl | h
        · exact ⟨around, n, parent_mem, below, List.mem_cons_self⟩
        · obtain ⟨rest, child, outer_mem, child_mem, on_way⟩ := ih parent parent_mem h
          exact ⟨rest, child, outer_mem, child_mem, List.mem_cons_of_mem _ on_way⟩

end SheetMarkup.Node
