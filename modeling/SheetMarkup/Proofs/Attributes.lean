import SheetMarkup.Proofs.Placement
import SheetMarkup.Proofs.Spreadsheet
import SheetMarkup.Proofs.Template.Origin
import SheetMarkup.Proofs.Template.Recasting

/-!
# Document attributes

The attributes of a document only pass through. A source is compiled with some attributes as it is
without any, and they are put into the document roots of the template afterwards
(`Dialect.compile_spreadsheet`). So two documents that only differ in their attributes are both
refused, with the same report, or they are compiled to templates that only differ in what the
document roots carry (`compile_attributes`).

For the reading this is a matter of recasting the directive of the workbook, the only one that has
to do with attributes. The check does not look at them (`Node.check_withAttributes`).
-/

namespace SheetMarkup

variable (attributes : OrderedMap String)

/-! ## Trees with other attributes -/

namespace Node

/-- A tree in which all document roots carry these attributes. -/
def withAttributes : Node → Node
  | list line nodes => .list line (nodes.attach.map fun child => child.1.withAttributes)
  | text line value => .text line value
  | print line value => .print line value
  | choice line condition thenBody elseBody =>
    .choice line condition thenBody.withAttributes
      (elseBody.attach.map fun body => body.1.withAttributes)
  | loop line binding iterable body => .loop line binding iterable body.withAttributes
  | definition line name arguments body => .definition line name arguments body.withAttributes
  | root line _ workbook => .root line attributes workbook.withAttributes
  | element line e parameters body =>
    .element line e parameters (body.attach.map fun body => body.1.withAttributes)
termination_by node => sizeOf node
decreasing_by
  all_goals apply sizeOf_lt_of_mem_children
  · exact child.2
  · simp [children]
  · simp [children, Option.mem_def.mp body.2]
  all_goals simp [children]
  exact Option.mem_def.mp body.2

/-- A tree without the attributes of its document roots. -/
def eraseAttributes : Node → Node := withAttributes .empty

/-- A node that is no document root or carries these attributes. -/
def Carries : Node → Prop
  | root _ own _ => own = attributes
  | _ => True

theorem withAttributes_list (line : Nat) (nodes : List Node) :
    (list line nodes).withAttributes attributes =
      .list line (nodes.map (withAttributes attributes)) := by
  rw [withAttributes]
  simp

theorem withAttributes_choice (line : Nat) (condition : Expr) (thenBody : Node)
    (elseBody : Option Node) :
    (choice line condition thenBody elseBody).withAttributes attributes =
      .choice line condition (thenBody.withAttributes attributes)
        (elseBody.map (withAttributes attributes)) := by
  rw [withAttributes]
  simp

theorem withAttributes_element (line : Nat) (e : Element) (parameters : OrderedMap Expr)
    (body : Option Node) :
    (element line e parameters body).withAttributes attributes =
      .element line e parameters (body.map (withAttributes attributes)) := by
  rw [withAttributes]
  simp

theorem kind_withAttributes (node : Node) : (node.withAttributes attributes).kind = node.kind := by
  cases node <;> rw [withAttributes] <;> rfl

theorem line_withAttributes (node : Node) : (node.withAttributes attributes).line = node.line := by
  cases node <;> rw [withAttributes] <;> rfl

theorem children_withAttributes (node : Node) :
    (node.withAttributes attributes).children =
      node.children.map (withAttributes attributes) := by
  cases node with
  | choice _ _ _ elseBody => cases elseBody <;> simp [withAttributes_choice, children]
  | element _ _ _ body => cases body <;> simp [withAttributes_element, children]
  | _ => simp [withAttributes, children]

/-- Other attributes take the place of those before. -/
theorem withAttributes_withAttributes (before : OrderedMap String) (node : Node) :
    (node.withAttributes before).withAttributes attributes = node.withAttributes attributes := by
  induction node using inductionOn with
  | step node ih =>
      cases node with
      | list line nodes =>
          simp only [withAttributes_list, List.map_map]
          exact congrArg _ (List.map_congr_left ih)
      | choice line condition thenBody elseBody =>
          simp only [children, List.forall_mem_cons] at ih
          simp only [withAttributes_choice, ih.1, Option.map_map]
          exact congrArg _ (Option.map_congr fun body mem => ih.2 body (by simpa using mem))
      | element line e parameters body =>
          simp only [withAttributes_element, Option.map_map]
          exact congrArg _ (Option.map_congr fun body mem =>
            ih body (by simpa [children] using mem))
      | text | print => simp only [withAttributes]
      | loop _ _ _ body => simp only [withAttributes, ih body (by simp [children])]
      | definition _ _ _ body => simp only [withAttributes, ih body (by simp [children])]
      | root _ _ workbook => simp only [withAttributes, ih workbook (by simp [children])]

theorem throughout_carries (node : Node) :
    (node.withAttributes attributes).Throughout (Carries attributes) := by
  induction node using inductionOn with
  | step node ih =>
      refine .intro ?_ ?_
      · cases node <;> rw [withAttributes] <;> trivial
      · rw [children_withAttributes]
        simpa using ih

/-! ## The check -/

theorem siblingFault_withAttributes (texts roots : Bool) (nodes : List Node) :
    siblingFault texts roots (nodes.map (withAttributes attributes)) =
      siblingFault texts roots nodes := by
  induction nodes generalizing texts roots with
  | nil => rfl
  | cons node nodes ih =>
      simp only [List.map_cons, siblingFault_cons, kind_withAttributes, line_withAttributes, ih]

theorem fault_withAttributes (path : Path) (node : Node) :
    (node.withAttributes attributes).fault path = node.fault path := by
  have siblings : siblingFault false false (node.withAttributes attributes).children =
      siblingFault false false node.children := by
    rw [children_withAttributes, siblingFault_withAttributes]
  cases node with
  | element =>
      rw [withAttributes_element]
      rfl
  | text | print => rw [withAttributes]
  | _ =>
      rw [withAttributes] at siblings ⊢
      exact siblings

theorem forM_check_withAttributes {nodes : List Node}
    (each : ∀ node ∈ nodes, (node.withAttributes attributes).check = node.check) :
    (nodes.map (withAttributes attributes)).forM check = nodes.forM check := by
  simp only [List.forM_eq_forM]
  induction nodes with
  | nil => rfl
  | cons node nodes ih =>
      rw [List.forall_mem_cons] at each
      rw [List.map_cons, List.forM_cons, List.forM_cons, each.1, ih each.2]

/-- The check does not look at attributes. -/
theorem check_withAttributes (node : Node) :
    (node.withAttributes attributes).check = node.check := by
  induction node using inductionOn with
  | step node ih =>
      have entered : (node.withAttributes attributes).enter = node.enter := by
        funext path
        simp only [enter, fault_withAttributes, kind_withAttributes]
      rw [check_eq, check_eq, entered, children_withAttributes,
        forM_check_withAttributes attributes ih]

end Node

/-! ## Compiling -/

/-- A template in which all document roots carry these attributes. -/
def Template.withAttributes (template : Template) : Template :=
  ⟨template.file, template.body.withAttributes attributes⟩

theorem Template.check_withAttributes (template : Template) :
    (template.withAttributes attributes).check =
      template.check.map (Template.withAttributes attributes) := by
  unfold check
  rw [withAttributes, Node.check_withAttributes]
  cases template.body.check .empty <;> rfl

/-- The node of an element with other attributes is the one made with them. -/
theorem Element.node_withAttributes (before : OrderedMap String) (e : Element) (line : Nat)
    (parameters : OrderedMap Expr) (body : Option Node) :
    (e.node before line parameters body).withAttributes attributes =
      e.node attributes line parameters (body.map (Node.withAttributes attributes)) := by
  cases e <;> simp only [Element.node, Node.withAttributes, Node.withAttributes_element]

/-- A directive with the tag of an element, as one that makes nodes with these attributes. -/
def Directive.withAttributes (d : Directive) : Directive :=
  { d with node := fun line parameters body =>
      match Element.ofTag? d.tag with
      | some e => e.node attributes line parameters body
      | none => d.node line parameters body }

theorem Element.directive_withAttributes (before : OrderedMap String) (e : Element) :
    (e.directive before).withAttributes attributes = e.directive attributes := by
  have named : Element.ofTag? (e.directive before).tag = some e := e.ofTag?_tag
  simp only [Directive.withAttributes, named]
  rfl

/-- The exchange of all attributes of document roots for these. -/
def Recasting.ofAttributes : Recasting where
  node := Node.withAttributes attributes
  directive := Directive.withAttributes attributes
  covers d := ∃ (e : Element) (before : OrderedMap String), d = e.directive before
  list := Node.withAttributes_list attributes
  text _ _ := by rw [Node.withAttributes]
  print _ _ := by rw [Node.withAttributes]
  choice := Node.withAttributes_choice attributes
  loop _ _ _ _ := by rw [Node.withAttributes]
  definition _ _ _ _ := by rw [Node.withAttributes]
  tag _ := rfl
  hasBody _ := rfl
  parameters _ := rfl
  make := by
    rintro _ line parameters body ⟨e, before, rfl⟩
    rw [e.directive_withAttributes]
    exact e.node_withAttributes attributes before line parameters body

namespace Dialect

/-- The spreadsheet dialects are the same but for the attributes. -/
theorem recastBy_spreadsheet (before : OrderedMap String) (names : List String) :
    (spreadsheet before).RecastBy (.ofAttributes attributes) (spreadsheet attributes) names := by
  intro name _ _
  refine ⟨?_, fun d found => ?_⟩
  · rw [find?_spreadsheet, find?_spreadsheet, Option.map_map]
    congr 1
    funext e
    exact (e.directive_withAttributes attributes before).symm
  · obtain ⟨e, -, rfl⟩ := exists_element_of_find? found
    exact ⟨e, before, rfl⟩

/-- A source is compiled with some attributes as it is with none, which are put into its document
roots afterwards. -/
theorem compile_spreadsheet (file source : String) :
    (spreadsheet attributes).compile file source =
      ((spreadsheet .empty).compile file source).map (Template.withAttributes attributes) := by
  have read : (spreadsheet attributes).readTemplate file source =
      ((spreadsheet .empty).readTemplate file source).map (Template.withAttributes attributes) :=
    readTemplate_recast (.ofAttributes attributes)
      (fun tokens _ => recastBy_spreadsheet attributes .empty (Token.tags tokens)) file
  unfold compile
  rw [read]
  cases (spreadsheet .empty).readTemplate file source with
  | error report => rfl
  | ok template => exact template.check_withAttributes attributes

end Dialect

/-- Attributes make no difference to whether a source is compiled nor to the report about it, and
the templates are the same but for the attributes that their document roots carry: all those that
the document has, in their order. -/
theorem compile_attributes (first second : OrderedMap String) (file source : String) :
    (∃ report, (Dialect.spreadsheet first).compile file source = .error report ∧
      (Dialect.spreadsheet second).compile file source = .error report) ∨
    ∃ a b : Template, (Dialect.spreadsheet first).compile file source = .ok a ∧
      (Dialect.spreadsheet second).compile file source = .ok b ∧
      a.file = b.file ∧ a.body.eraseAttributes = b.body.eraseAttributes ∧
      a.body.Throughout (Node.Carries first) ∧ b.body.Throughout (Node.Carries second) := by
  rw [Dialect.compile_spreadsheet first, Dialect.compile_spreadsheet second]
  cases (Dialect.spreadsheet .empty).compile file source with
  | error report => exact .inl ⟨report, rfl, rfl⟩
  | ok template =>
      refine .inr ⟨template.withAttributes first, template.withAttributes second, rfl, rfl, rfl,
        ?_, Node.throughout_carries first _, Node.throughout_carries second _⟩
      simp only [Template.withAttributes, Node.eraseAttributes,
        Node.withAttributes_withAttributes]

end SheetMarkup
