import SheetMarkup.Directive
import SheetMarkup.Proofs.Expr.Writing
import SheetMarkup.Proofs.Schema
import SheetMarkup.Proofs.Source.Written
import SheetMarkup.Proofs.Template.Constructs

/-!
# Writing templates

A template is written from its tree: texts as they are, printed values and tags one after another,
every element with all of its parameters (`Node.source`). The trees that can be written are those
that can be read (`Node.WellFormed`): lists stand as the bodies of tags and nowhere else, elements
have the parameters that they declare, and a workbook stands right below a document root.
-/

namespace SheetMarkup

open Token (Kind kinds)

/-! ## Written trees -/

/-- A block tag with what stands behind its name. -/
def Piece.block (name : String) (ks : List Kind) : Piece := .tag .block (.name name :: ks)

/-- The tokens that parameters are written with. -/
def parameterRow (parameters : OrderedMap Expr) : List Kind :=
  parameters.entries.flatMap fun entry => entry.2.row

namespace Node

/-- The pieces that a node is written in. A document root is seen by its workbook. -/
def pieces : Node → List Piece
  | list _ nodes => nodes.attach.flatMap fun child => child.1.pieces
  | text _ value => [.text value]
  | print _ value => [.tag .output value.row]
  | choice _ condition thenBody none =>
    .block "if" condition.row :: thenBody.pieces ++ [.block "endif" []]
  | choice _ condition thenBody (some elseBody) =>
    .block "if" condition.row :: thenBody.pieces ++
      .block "else" [] :: elseBody.pieces ++ [.block "endif" []]
  | loop _ binding iterable body =>
    .block "for" (.name binding :: .name "in" :: iterable.row) :: body.pieces ++
      [.block "endfor" []]
  | definition _ name arguments body =>
    .block "macro" (.name name :: .symbol .openParen :: nameRow arguments ++
      [.symbol .closeParen]) :: body.pieces ++ [.block "endmacro" []]
  | root _ _ workbook => workbook.pieces
  | element _ e parameters none => [.block e.tag (parameterRow parameters)]
  | element _ e parameters (some body) =>
    .block e.tag (parameterRow parameters) :: body.pieces ++ [.block ("end" ++ e.tag) []]
termination_by node => sizeOf node
decreasing_by
  all_goals first
    | exact sizeOf_lt_of_mem_children child.2
    | exact sizeOf_lt_of_mem_children (by simp [children])

@[simp] theorem pieces_list (line : Nat) (nodes : List Node) :
    (list line nodes).pieces = nodes.flatMap pieces := by
  rw [pieces]
  simp [List.flatMap_def]

/-- The source that a tree is written as. -/
def source (node : Node) : String := String.ofList (Piece.source false node.pieces)

/-- A tree without its lines. -/
def unplaced : Node → Node
  | list _ nodes => .list 0 (nodes.attach.map fun child => child.1.unplaced)
  | text _ value => .text 0 value
  | print _ value => .print 0 value
  | choice _ condition thenBody none => .choice 0 condition thenBody.unplaced none
  | choice _ condition thenBody (some elseBody) =>
    .choice 0 condition thenBody.unplaced (some elseBody.unplaced)
  | loop _ binding iterable body => .loop 0 binding iterable body.unplaced
  | definition _ name arguments body => .definition 0 name arguments body.unplaced
  | root _ attributes workbook => .root 0 attributes workbook.unplaced
  | element _ e parameters none => .element 0 e parameters none
  | element _ e parameters (some body) => .element 0 e parameters (some body.unplaced)
termination_by node => sizeOf node
decreasing_by
  all_goals first
    | exact sizeOf_lt_of_mem_children child.2
    | exact sizeOf_lt_of_mem_children (by simp [children])

@[simp] theorem unplaced_list (line : Nat) (nodes : List Node) :
    (list line nodes).unplaced = .list 0 (nodes.map unplaced) := by
  rw [unplaced]
  simp

theorem unplaced_alternative (line : Nat) (condition : Expr) (a b : Node) :
    (choice line condition a (some b)).unplaced =
      .choice 0 condition a.unplaced (some b.unplaced) := by
  rw [unplaced]

theorem unplaced_list_congr {a b : List Node} (h : a.map unplaced = b.map unplaced)
    (line line' : Nat) : (list line a).unplaced = (list line' b).unplaced := by
  rw [unplaced_list, unplaced_list, h]

end Node

/-! ## Trees that can be written -/

/-- Parameters of an element that can be written: those that it declares, in their order. -/
def Element.Accepts (e : Element) (parameters : OrderedMap Expr) : Prop :=
  List.Forall₂ Parameter.Fits e.parameters parameters.entries ∧
    ∀ entry ∈ parameters.entries, entry.2.WellFormed

/-- The nodes that can stand in a body of a document with these attributes. -/
inductive Node.WellFormed (attributes : OrderedMap String) : Node → Prop
  | text {line : Nat} {value : String} : value ≠ "" → PlainText value.toList →
      WellFormed attributes (.text line value)
  | print {line : Nat} {value : Expr} : value.WellFormed →
      WellFormed attributes (.print line value)
  | choice {line start : Nat} {condition : Expr} {nodes : List Node} : condition.WellFormed →
      (∀ node ∈ nodes, node.WellFormed attributes) →
      WellFormed attributes (.choice line condition (.list start nodes) none)
  | alternative {line start other : Nat} {condition : Expr} {nodes others : List Node} :
      condition.WellFormed → (∀ node ∈ nodes, node.WellFormed attributes) →
      (∀ node ∈ others, node.WellFormed attributes) →
      WellFormed attributes
        (.choice line condition (.list start nodes) (some (.list other others)))
  | loop {line start : Nat} {binding : String} {iterable : Expr} {nodes : List Node} :
      IsIdentifier binding → iterable.WellFormed →
      (∀ node ∈ nodes, node.WellFormed attributes) →
      WellFormed attributes (.loop line binding iterable (.list start nodes))
  | definition {line start : Nat} {name : String} {arguments : List String}
      {nodes : List Node} : IsIdentifier name → (∀ argument ∈ arguments, IsIdentifier argument) →
      (∀ node ∈ nodes, node.WellFormed attributes) →
      WellFormed attributes (.definition line name arguments (.list start nodes))
  | root {line place start : Nat} {parameters : OrderedMap Expr} {nodes : List Node} :
      Element.workbook.Accepts parameters → (∀ node ∈ nodes, node.WellFormed attributes) →
      WellFormed attributes
        (.root line attributes (.element place .workbook parameters (some (.list start nodes))))
  | element {line start : Nat} {e : Element} {parameters : OrderedMap Expr}
      {nodes : List Node} : e ≠ .workbook → e ≠ .drawing → e.Accepts parameters →
      (∀ node ∈ nodes, node.WellFormed attributes) →
      WellFormed attributes (.element line e parameters (some (.list start nodes)))
  | drawing {line : Nat} {parameters : OrderedMap Expr} : Element.drawing.Accepts parameters →
      WellFormed attributes (.element line .drawing parameters none)

/-! ## The tags of trees can be written -/

theorem isIdentifier_tag (e : Element) : IsIdentifier e.tag := by
  cases e <;> exact ⟨_, _, rfl, rfl, List.all_eq_true.mp rfl⟩

theorem isIdentifier_endTag (e : Element) : IsIdentifier ("end" ++ e.tag) := by
  cases e <;> exact ⟨_, _, rfl, rfl, List.all_eq_true.mp rfl⟩

theorem balanced_nameRow {names : List String} (h : ∀ name ∈ names, IsIdentifier name) :
    Kind.Balanced (nameRow names) := by
  cases names with
  | nil => exact .nil
  | cons name more =>
      have comma : Kind.Balanced [.symbol .comma] := Expr.balanced_symbol (by simp) (by simp)
      have later : Kind.Balanced (laterNames more) :=
        .flatMap fun other mem => comma.append (Expr.balanced_name (h other (by simp [mem])))
      exact (Expr.balanced_name (h name (by simp))).append later

theorem Element.Accepts.balanced {e : Element} {parameters : OrderedMap Expr}
    (h : e.Accepts parameters) : Kind.Balanced (parameterRow parameters) :=
  .flatMap fun entry mem => (h.2 entry mem).balanced

theorem Piece.WellFormed.block {name : String} {ks : List Kind} (identifier : IsIdentifier name)
    (balanced : Kind.Balanced ks) : (Piece.block name ks).WellFormed :=
  (Expr.balanced_name identifier).append balanced

/-- The names of the host tags are identifiers. -/
theorem isIdentifier_host {name : String}
    (h : name ∈ ["if", "else", "endif", "for", "endfor", "macro", "endmacro"]) :
    IsIdentifier name := by
  simp only [List.mem_cons, List.not_mem_nil, or_false] at h
  rcases h with rfl | rfl | rfl | rfl | rfl | rfl | rfl <;>
    exact ⟨_, _, rfl, rfl, List.all_eq_true.mp rfl⟩

/-- A host tag can be written if what stands behind its name can. -/
theorem Piece.WellFormed.host {name : String}
    (h : name ∈ ["if", "else", "endif", "for", "endfor", "macro", "endmacro"]) {ks : List Kind}
    (balanced : Kind.Balanced ks) : (Piece.block name ks).WellFormed :=
  .block (isIdentifier_host h) balanced

theorem Piece.WellFormed.endOf (e : Element) : (Piece.block ("end" ++ e.tag) []).WellFormed :=
  .block (isIdentifier_endTag e) .nil

/-- A tag, what stands in it and its end tag can be written if each of them can. -/
theorem Piece.WellFormed.enclosed {opening ending : Piece} {inner : List Piece}
    (first : opening.WellFormed) (inside : ∀ piece ∈ inner, piece.WellFormed)
    (last : ending.WellFormed) :
    ∀ piece ∈ opening :: inner ++ [ending], piece.WellFormed := by
  simp only [List.cons_append, List.forall_mem_cons, List.forall_mem_append]
  exact ⟨first, inside, last, by simp⟩

theorem Node.wellFormed_pieces_list (line : Nat) {nodes : List Node}
    (each : ∀ node ∈ nodes, ∀ piece ∈ node.pieces, piece.WellFormed) :
    ∀ piece ∈ (Node.list line nodes).pieces, piece.WellFormed := by
  intro piece mem
  rw [Node.pieces_list] at mem
  obtain ⟨node, node_mem, mem⟩ := List.mem_flatMap.mp mem
  exact each node node_mem piece mem

theorem Node.WellFormed.pieces {attributes : OrderedMap String} {node : Node}
    (h : node.WellFormed attributes) : ∀ piece ∈ node.pieces, piece.WellFormed := by
  induction h with
  | text nonempty plain =>
      rw [Node.pieces, List.forall_mem_singleton]
      exact ⟨nonempty, plain⟩
  | print value =>
      rw [Node.pieces, List.forall_mem_singleton]
      exact value.balanced
  | choice condition _ ih =>
      rw [Node.pieces]
      exact .enclosed (.host (by simp) condition.balanced) (wellFormed_pieces_list _ ih)
        (.host (by simp) .nil)
  | alternative condition _ _ ih ih' =>
      rw [Node.pieces]
      simp only [List.cons_append, List.append_assoc, List.forall_mem_cons, List.forall_mem_append]
      exact ⟨.host (by simp) condition.balanced, wellFormed_pieces_list _ ih,
        .host (by simp) .nil, wellFormed_pieces_list _ ih', .host (by simp) .nil, by simp⟩
  | loop binding iterable _ ih =>
      have keyword : IsIdentifier "in" := ⟨_, _, rfl, rfl, List.all_eq_true.mp rfl⟩
      have names := (Expr.balanced_name binding).append (Expr.balanced_name keyword)
      rw [Node.pieces]
      exact .enclosed (.host (by simp) (names.append iterable.balanced))
        (wellFormed_pieces_list _ ih) (.host (by simp) .nil)
  | definition name arguments _ ih =>
      have listed := (Expr.balanced_name name).append
        (Expr.balanced_group (balanced_nameRow arguments))
      rw [Node.pieces]
      exact .enclosed (.host (by simp) listed) (wellFormed_pieces_list _ ih)
        (.host (by simp) .nil)
  | root parameters _ ih =>
      rw [Node.pieces, Node.pieces]
      exact .enclosed (.block (isIdentifier_tag _) parameters.balanced)
        (wellFormed_pieces_list _ ih) (.endOf _)
  | element _ _ parameters _ ih =>
      rw [Node.pieces]
      exact .enclosed (.block (isIdentifier_tag _) parameters.balanced)
        (wellFormed_pieces_list _ ih) (.endOf _)
  | drawing parameters =>
      rw [Node.pieces, List.forall_mem_singleton]
      exact .block (isIdentifier_tag _) parameters.balanced

end SheetMarkup
