import Mathlib
import SheetMarkup.Proofs.Template.Form

/-!
# The hierarchy of elements

The check looks at one element and the nearest one around it. For a template that is compiled this
orders everything: document roots stand outside of all elements and hold the workbooks, and on the
way from the root of the tree to a node every element is a parent of the next one. As an element is
on a higher level than its parents (`Element.level_lt_of_mem_parents`), none occurs twice on a way
and there are at most five, however many conditions, loops and macros lie between them.

The elements on a way form a chain because each was checked against the nearest one around it
(`Node.isChain_elements`); that nothing around a document root is an element follows from the
workbook in it, which has no parents (`Node.outside_of_root`). Main result: `compile_hierarchy`.
-/

namespace SheetMarkup

/-! ## Levels -/

namespace Element

/-- How deep in a workbook an element stands. -/
def level : Element → Nat
  | workbook => 0
  | sheet => 1
  | row | header | footer => 2
  | cell | left | center | right => 3
  | drawing => 4

theorem level_lt_of_mem_parents {outer inner : Element} (h : outer ∈ inner.parents) :
    outer.level < inner.level := by
  revert h
  cases inner <;> cases outer <;> decide

theorem level_lt_five (element : Element) : element.level < 5 := by
  cases element <;> decide

/-- Elements of which each is a parent of the next one are distinct, and at most five. -/
theorem nodup_of_isChain {elements : List Element}
    (h : elements.IsChain fun outer inner => outer ∈ inner.parents) :
    elements.Nodup ∧ elements.length ≤ 5 := by
  have climbs : (elements.map level).IsChain (· < ·) :=
    (List.isChain_map level).mpr (h.imp fun _ _ => level_lt_of_mem_parents)
  have nodup : (elements.map level).Nodup := climbs.pairwise.imp fun lt => Nat.ne_of_lt lt
  have bounded : elements.map level ⊆ List.range 5 := by
    intro n mem
    obtain ⟨element, -, rfl⟩ := List.mem_map.mp mem
    exact List.mem_range.mpr element.level_lt_five
  have le := (nodup.subperm bounded).length_le
  exact ⟨List.Nodup.of_map level nodup, by simpa using le⟩

end Element

/-! ## Ways -/

/-- The element that a node of this sort is, if it is one. -/
def Node.Kind.element? : Kind → Option Element
  | element e => some e
  | _ => none

theorem Node.Kind.element?_eq_some_iff {kind : Kind} {e : Element} :
    kind.element? = some e ↔ kind = .element e := by
  cases kind <;> simp [element?]

/-- The elements among some nodes. -/
def Node.elements (nodes : List Node) : List Element := nodes.filterMap fun n => n.kind.element?

/-- The elements on the way to a node and the node itself if it is one, outermost first. -/
def Occurrence.elements (o : Occurrence) : List Element :=
  (Node.elements (o.node :: o.around)).reverse

namespace Node

theorem nearestElement?_eq_head? (around : List Node) :
    nearestElement? around = (elements around).head? := by
  induction around with
  | nil => rfl
  | cons node around ih =>
      cases node with
      | element => rfl
      | _ => exact ih

variable {node : Node}

/-- On the way from a node up to the root of its tree, the next element is a parent of the one
before, if no element is misplaced. -/
theorem isChain_elements (placed : ∀ o ∈ node.occurrences [], ¬ o.Misplaced) {around : List Node}
    {n : Node} (mem : ⟨around, n⟩ ∈ node.occurrences []) :
    (elements (n :: around)).IsChain fun inner outer => outer ∈ inner.parents := by
  -- only the nearest element around a node matters for it
  have step : ∀ {around n}, ⟨around, n⟩ ∈ node.occurrences [] →
      ((elements around).IsChain fun inner outer => outer ∈ inner.parents) →
      (elements (n :: around)).IsChain fun inner outer => outer ∈ inner.parents := by
    intro around n mem above
    cases kind : n.kind.element? with
    | none => simpa [elements, kind] using above
    | some e =>
        have shown : elements (n :: around) = e :: elements around := by simp [elements, kind]
        rw [shown, List.isChain_cons]
        refine ⟨?_, above⟩
        intro parent nearest
        by_contra foreign
        rw [Option.mem_def, ← nearestElement?_eq_head?] at nearest
        exact placed _ mem ⟨e, parent, Kind.element?_eq_some_iff.mp kind, nearest, foreign⟩
  induction around generalizing n with
  | nil => exact step mem .nil
  | cons parent outer ih =>
      rcases exists_parent_of_mem_occurrences mem with root | ⟨_, _, eq, -, parent_mem⟩
      · cases congrArg Occurrence.around root
      · cases eq
        exact step mem (ih parent_mem)

/-- Nothing around a document root is an element or a document root. -/
theorem outside_of_root (formed : node.Throughout Formed)
    (placed : ∀ o ∈ node.occurrences [], ¬ o.Misplaced) {o : Occurrence}
    (mem : o ∈ node.occurrences []) (root : o.node.kind = .root) :
    ∀ outer ∈ o.around, outer.kind ≠ .root ∧ ∀ e, outer.kind ≠ .element e := by
  obtain ⟨workbook, children, kind⟩ := (formed.of_mem_occurrences mem).here.exists_workbook root
  have below := child_mem_occurrences mem workbook (by simp [children])
  -- a workbook has no parents, so there is no element around the one in the root
  have free : elements (o.node :: o.around) = [] := by
    rw [← List.head?_eq_none_iff, ← nearestElement?_eq_head?]
    by_contra some
    obtain ⟨parent, nearest⟩ := Option.ne_none_iff_exists'.mp some
    exact placed _ below ⟨.workbook, parent, kind, nearest, by simp [Element.parents]⟩
  have noElement : ∀ n ∈ o.node :: o.around, ∀ e, n.kind ≠ .element e := by
    intro n n_mem e element
    have none := List.filterMap_eq_nil_iff.mp free n n_mem
    simp [element, Kind.element?] at none
  intro outer outer_mem
  refine ⟨?_, noElement outer (by simp [outer_mem])⟩
  -- a root around would have its workbook on the way
  intro outerRoot
  obtain ⟨rest, child, in_tree, child_mem, on_way⟩ := exists_child_of_mem_around mem outer_mem
  have around := (formed.of_mem_occurrences in_tree).here
  obtain ⟨inner, only, element⟩ := around.exists_workbook outerRoot
  rw [only, List.mem_singleton] at child_mem
  exact noElement child on_way _ (child_mem ▸ element)

end Node

/-- In a compiled template the workbooks are the children of the document roots, no document root is
inside of an element or of another root, and on the way to any node each element is a parent of the
next one. So the elements on a way are distinct, and at most five. -/
theorem compile_hierarchy {attributes : OrderedMap String} {file source : String}
    {template : Template}
    (h : (Dialect.spreadsheet attributes).compile file source = .ok template) :
    ∀ o ∈ template.body.occurrences [],
      (o.node.kind = .element .workbook →
        ∃ parent outer, o.around = parent :: outer ∧ parent.kind = .root) ∧
      (o.node.kind = .root →
        (∃ workbook, o.node.children = [workbook] ∧ workbook.kind = .element .workbook) ∧
          ∀ outer ∈ o.around, outer.kind ≠ .root ∧ ∀ e, outer.kind ≠ .element e) ∧
      o.elements.IsChain (fun outer inner => outer ∈ inner.parents) ∧
      o.elements.Nodup ∧ o.elements.length ≤ 5 := by
  intro o mem
  obtain ⟨read, sound⟩ := Dialect.compile_eq_ok_iff.mp h
  obtain ⟨formed, list⟩ := throughout_formed_of_readTemplate read
  have placed : ∀ o ∈ template.body.occurrences [], ¬ o.Misplaced := fun o mem => (sound o mem).1
  have chain : o.elements.IsChain fun outer inner => outer ∈ inner.parents :=
    List.isChain_reverse.mpr (Node.isChain_elements placed mem)
  refine ⟨Node.exists_root_of_workbook formed list mem, ?_, chain, Element.nodup_of_isChain chain⟩
  intro root
  have here := (formed.of_mem_occurrences mem).here
  exact ⟨here.exists_workbook root, Node.outside_of_root formed placed mem root⟩

set_option maxRecDepth 1000 in
/-- A sheet in a workbook, with a macro between them. -/
theorem compile_hierarchy_sheet :
    let source := "\x7b%workbook%\x7d\x7b%macro m()%\x7d\x7b%sheet i%\x7d" ++
      "\x7b%endsheet%\x7d\x7b%endmacro%\x7d\x7b%endworkbook%\x7d"
    ∃ template, (Dialect.spreadsheet .empty).compile "a" source = .ok template ∧
      ∃ o ∈ template.body.occurrences [], o.elements = [.workbook, .sheet] ∧
        o.elements.IsChain (fun outer inner => outer ∈ inner.parents) ∧
        o.elements.Nodup ∧ o.elements.length ≤ 5 := by
  intro source
  let sheet : Node := .element 1 .sheet
    ⟨[("index", .name "i"), ("properties", .list [])], by decide⟩ (some (.list 1 []))
  let definition : Node := .definition 1 "m" [] (.list 1 [sheet])
  let workbook : Node := .element 1 .workbook ⟨[("properties", .list [])], by decide⟩
    (some (.list 1 [definition]))
  let root : Node := .root 1 .empty workbook
  have read : (Dialect.spreadsheet .empty).readTemplate "a" source = .ok ⟨"a", .list 1 [root]⟩ :=
    Dialect.readTemplate_of_bodyWithin 7 (by cbv) "a"
  have compiled : (Dialect.spreadsheet .empty).compile "a" source = .ok ⟨"a", .list 1 [root]⟩ := by
    rw [Dialect.compile, read]
    cbv
  have mem := Node.self_mem_occurrences [] (.list 1 [root])
  have mem := Node.child_mem_occurrences mem root (by simp [Node.children])
  have mem := Node.child_mem_occurrences mem workbook (by simp [root, Node.children])
  have mem := Node.child_mem_occurrences mem (.list 1 [definition])
    (by simp [workbook, Node.children])
  have mem := Node.child_mem_occurrences mem definition (by simp [Node.children])
  have mem := Node.child_mem_occurrences mem (.list 1 [sheet])
    (by simp [definition, Node.children])
  have mem := Node.child_mem_occurrences mem sheet (by simp [Node.children])
  obtain ⟨-, -, chain, nodup, le⟩ := compile_hierarchy compiled _ mem
  exact ⟨_, compiled, _, mem, rfl, chain, nodup, le⟩

end SheetMarkup
