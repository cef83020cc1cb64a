import SheetMarkup.Proofs.Expr.Values
import SheetMarkup.Proofs.Lexeme.Writable
import SheetMarkup.Proofs.Spreadsheet
import SheetMarkup.Proofs.Template.Origin
import SheetMarkup.Proofs.Template.Writing

/-!
# What the nodes of a spreadsheet hold

What a node of a spreadsheet holds apart from other nodes could have been written in a tag
(`Node.Regular`): its expressions are well-formed, its names are identifiers, and its parameters are
those that its element declares. This is so because what comes from the tokens of a source is made
of tokens that can be written (`Node.ComesFrom.throughout_regular`).
-/

namespace SheetMarkup

open Grammar
open Token (kinds)

/-- What a node may hold in a document with these attributes. -/
def Node.Regular (attributes : OrderedMap String) : Node → Prop
  | list .. | text .. => True
  | print _ value => value.WellFormed
  | choice _ condition _ _ => condition.WellFormed
  | loop _ binding iterable _ => IsIdentifier binding ∧ iterable.WellFormed
  | definition _ name arguments _ =>
    IsIdentifier name ∧ ∀ argument ∈ arguments, IsIdentifier argument
  | root _ ownAttributes _ => ownAttributes = attributes
  | element _ e parameters _ => e.Accepts parameters

/-! ## Rows of writable tokens -/

namespace WritableInside

variable {tokens row : List Token} (writable : WritableInside tokens) (subset : row ⊆ tokens)

include writable subset

theorem of_mem_kinds {k : Token.Kind} (mem : k ∈ kinds row) (inner : k.IsInner) : k.Writable := by
  obtain ⟨token, token_mem, rfl⟩ := List.mem_map.mp mem
  exact writable token (subset token_mem) inner

theorem wellFormed_of_expression {e : Expr} (derived : Expression (kinds row) e) :
    e.WellFormed := by
  apply derived.wellFormed
  intro k mem
  exact writable.of_mem_kinds subset mem (derived.inner.2 k mem)

theorem isIdentifier_of_mem {name : String} (mem : Token.Kind.name name ∈ kinds row) :
    IsIdentifier name :=
  writable.of_mem_kinds subset mem trivial

theorem wellFormed_of_row {es : List Expr} (items : ExpressionRow row es) :
    ∀ e ∈ es, e.WellFormed := by
  induction items with
  | nil => simp
  | cons longest _ ih =>
      rw [List.append_subset] at subset
      intro e mem
      rcases List.mem_cons.mp mem with rfl | mem
      · exact writable.wellFormed_of_expression subset.1 longest.2.1
      · exact ih subset.2 e mem

end WritableInside

/-! ## Parameters -/

/-- The defaults of an element's parameters are well-formed, and the parameters accept them. -/
theorem Element.default_fits (e : Element) :
    ∀ p ∈ e.parameters, ∀ d ∈ p.default, p.kind.accepts d = true ∧ d.WellFormed := by
  have forms : ∀ p ∈ e.parameters, p.default = none ∨
      (p.kind = .array ∧ p.default = some (.list [])) ∨
        (p.kind = .value ∧ p.default = some .null) := by
    cases e <;> simp [parameters, optionalArray, optionalValue, requiredValue]
  intro p p_mem d default
  rcases forms p p_mem with none | ⟨kind, some⟩ | ⟨kind, some⟩
  · cases none.symm.trans default
  · cases some.symm.trans default
    rw [kind]
    exact ⟨rfl, .list (by simp)⟩
  · cases some.symm.trans default
    rw [kind]
    exact ⟨rfl, .null⟩

/-- The parameters that an element's tag is given are those that it declares. -/
theorem Element.accepts_of_parameters {e : Element} {attributes : OrderedMap String}
    {token : Token} {tokens row : List Token} {parameters : OrderedMap Expr}
    (bound : (e.directive attributes).Parameters token row parameters)
    (writable : WritableInside tokens) (subset : row ⊆ tokens) : e.Accepts parameters := by
  obtain ⟨schema, es, declared, items, bound⟩ := bound
  have same : schema.parameters = e.parameters := Schema.parameters_of_ofList declared
  rw [Schema.bind_eq_ok_iff, same] at bound
  have fits := Parameter.fits_of_bind bound fun p mem d default =>
    (e.default_fits p mem d default).1
  refine ⟨fits, ?_⟩
  intro entry mem
  rcases Parameter.mem_or_default_of_bind bound entry mem with given | ⟨p, p_mem, default⟩
  · exact writable.wellFormed_of_row subset items entry.2 given
  · exact (e.default_fits p p_mem entry.2 default).2

/-! ## Trees -/

variable {attributes : OrderedMap String} {tokens : List Token}

theorem Element.throughout_regular {e : Element} {parameters : OrderedMap Expr}
    (accepts : e.Accepts parameters) {body : Option Node}
    (inside : ∀ node ∈ body, node.Throughout (Node.Regular attributes)) (line : Nat) :
    ((e.directive attributes).node line parameters body).Throughout (Node.Regular attributes) := by
  have element : (Node.element line e parameters body).Throughout (Node.Regular attributes) :=
    .intro accepts (by simpa [Node.children] using inside)
  exact throughout_node element fun _ _ => rfl

theorem name_mem_nameRow {names : List String} {name : String} (h : name ∈ names) :
    Token.Kind.name name ∈ nameRow names := by
  cases names with
  | nil => cases h
  | cons first more =>
      rcases List.mem_cons.mp h with rfl | h
      · exact List.mem_cons_self
      · exact List.mem_cons_of_mem _ (List.mem_flatMap.mpr ⟨name, h, by simp⟩)

/-- A tag that writable tokens open makes a regular node around a regular body. -/
theorem Opening.throughout_regular {line : Nat} {name : String} {row : List Token} {tag : OpenTag}
    (h : Opening (.spreadsheet attributes) line name row tag) (writable : WritableInside tokens)
    (subset : row ⊆ tokens) {body : Node} (inside : body.Throughout (Node.Regular attributes)) :
    (tag.node body).Throughout (Node.Regular attributes) := by
  have identifier : ∀ {name}, Token.Kind.name name ∈ kinds row → IsIdentifier name :=
    writable.isIdentifier_of_mem subset
  cases h with
  | choice derived =>
      have condition := writable.wellFormed_of_expression subset derived
      exact .intro condition (by simpa [OpenTag.node, Node.children] using inside)
  | loop spelled derived =>
      rw [spelled] at identifier
      have iterable := derived.wellFormed fun k mem =>
        writable.of_mem_kinds subset (by simp [spelled, mem]) (derived.inner.2 k mem)
      refine .intro ⟨identifier (by simp), iterable⟩ ?_
      simpa [OpenTag.node, Node.children] using inside
  | definition spelled =>
      rw [spelled] at identifier
      refine .intro ⟨identifier (by simp), ?_⟩ ?_
      · intro argument mem
        exact identifier (by simp [name_mem_nameRow mem])
      · simpa [OpenTag.node, Node.children] using inside
  | directive _ found _ bound =>
      obtain ⟨e, -, rfl⟩ := Dialect.exists_element_of_find? found
      exact Element.throughout_regular (Element.accepts_of_parameters bound writable subset)
        (by simpa using inside) line

/-- A tree that comes from the tokens of a source is regular. -/
theorem Node.ComesFrom.throughout_regular {node : Node}
    (h : node.ComesFrom (.spreadsheet attributes) tokens) (writable : WritableInside tokens) :
    node.Throughout (Node.Regular attributes) := by
  induction h with
  | text => exact .intro trivial (by simp [Node.children])
  | print _ subset derived =>
      exact .intro (writable.wellFormed_of_expression subset derived) (by simp [Node.children])
  | lone _ subset found _ bound =>
      obtain ⟨e, -, rfl⟩ := Dialect.exists_element_of_find? found
      exact Element.throughout_regular (Element.accepts_of_parameters bound writable subset)
        (by simp) _
  | enclosed opened _ _ ih =>
      obtain ⟨line, name, row, -, subset, opening⟩ := opened
      exact opening.throughout_regular writable subset (.list trivial ih)
  | alternative opened _ _ _ _ ih ih' =>
      obtain ⟨line, name, row, -, subset, opening⟩ := opened
      cases opening with
      | choice derived =>
          refine .intro (writable.wellFormed_of_expression subset derived) ?_
          simp only [Node.children, Option.toList, List.forall_mem_cons]
          exact ⟨.list trivial ih, .list trivial ih', by simp⟩

/-- The body of a template is regular throughout. -/
theorem throughout_regular_of_readTemplate {file source : String} {template : Template}
    (h : (Dialect.spreadsheet attributes).readTemplate file source = .ok template) :
    template.body.Throughout (Node.Regular attributes) := by
  obtain ⟨tokens, tokenized, body, comes, eq⟩ := exists_tokens_of_readTemplate h
  have writable := writable_of_tokenize tokenized
  rw [eq]
  exact .list trivial fun node mem => (comes.of_mem_node node mem).throughout_regular writable

end SheetMarkup
