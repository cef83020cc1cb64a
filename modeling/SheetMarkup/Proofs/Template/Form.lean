import Mathlib
import SheetMarkup.Proofs.Occurrences
import SheetMarkup.Proofs.Source.Segmentation
import SheetMarkup.Proofs.Template.Evaluation
import SheetMarkup.Proofs.Template.Regular

/-!
# The form of a template

A template that was read has a form that its sort of nodes alone does not tell: texts are not empty
and hide no opener, bodies are lists, an element has the parameters that it declares, a workbook
stands right below a document root and nowhere else (`Node.Formed`), and the expressions in it are
made of names, numbers and arrays as they can be written (`Expr.Formed`). Nothing of this depends on
the check of placement.

The texts of a source are formed because a text ends before the leftmost opener
(`textsFormed_of_tokenize`), expressions because well-formed ones are, part by part
(`Expr.WellFormed.throughout_formed`), and trees by induction on where their nodes come from
(`Node.ComesFrom.throughout_formed`). Main result: `readTemplate_formed`.
-/

namespace SheetMarkup

open Grammar
open Token (kinds)

/-! ## Expressions -/

/-- The expressions in an entry. -/
def Entry.parts : Entry → List Expr
  | item value => [value]
  | pair key value => [key, value]

/-- The expressions that stand directly in an expression, in the order in which they are written. -/
def Expr.parts : Expr → List Expr
  | .string _ | .integer _ | .real _ | .bool _ | .null | .name _ => []
  | .array entries => entries.flatMap Entry.parts
  | .attribute object _ => [object]
  | .index object place => [object, place]
  | .compare _ left right => [left, right]

/-- What holds of an expression and of all expressions in it. -/
inductive Expr.Throughout (P : Expr → Prop) : Expr → Prop
  | intro {e : Expr} : P e → (∀ part ∈ e.parts, part.Throughout P) → Throughout P e

namespace Expr

/-- The form of an expression, apart from the expressions in it. An integer is a numeral that fits
64 bits and a real one that does not; the entries of an array all have keys, or none has. -/
def Formed : Expr → Prop
  | .integer value =>
    ∃ numeral, Lexeme.Number.IsNumeral numeral ∧ Text.readInt64? numeral = some value
  | .real written =>
    Lexeme.Number.IsNumeral written.toList ∧ Text.readInt64? written.toList = none
  | .name word => IsIdentifier word ∧ word ∉ ["true", "false", "null", "none"]
  | .array entries =>
    (∀ entry ∈ entries, entry.isPair = true) ∨ ∀ entry ∈ entries, entry.isPair = false
  | .attribute _ word => IsIdentifier word
  | .string _ | .bool _ | .null | .index _ _ | .compare _ _ _ => True

theorem parts_list (items : List Expr) : (list items).parts = items := by
  rw [list, parts, List.flatMap_map]
  exact List.flatMap_singleton' items

theorem parts_hash (pairs : List (Expr × Expr)) :
    (hash pairs).parts = pairs.flatMap fun pair => [pair.1, pair.2] := by
  rw [hash, parts, List.flatMap_map]
  rfl

/-- What can be written is formed throughout. -/
theorem WellFormed.throughout_formed {e : Expr} (h : e.WellFormed) : e.Throughout Formed := by
  induction h with
  | string | bool | null => exact .intro trivial (by simp [parts])
  | integer value =>
      have numeral := Lexeme.Number.isNumeral_signedDecimal value.toInt
      exact .intro ⟨_, numeral, Text.readInt64?_signedDecimal value⟩ (by simp [parts])
  | real writable => exact .intro writable (by simp [parts])
  | name identifier free => exact .intro ⟨identifier, free⟩ (by simp [parts])
  | list _ ih =>
      refine .intro (.inr (by simp [Entry.isPair])) ?_
      rwa [parts_list]
  | @hash pairs _ _ keys values =>
      have keyed : ∀ entry ∈ pairs.map fun pair => Entry.pair pair.1 pair.2,
          entry.isPair = true := by
        intro entry mem
        obtain ⟨_, -, rfl⟩ := List.mem_map.mp mem
        rfl
      refine .intro (.inl keyed) ?_
      rw [parts_hash]
      intro part mem
      obtain ⟨pair, pair_mem, mem⟩ := List.mem_flatMap.mp mem
      simp only [List.mem_cons, List.not_mem_nil, or_false] at mem
      rcases mem with rfl | rfl
      · exact keys pair pair_mem
      · exact values pair pair_mem
  | attributeOf _ identifier ih => exact .intro identifier (by simpa [parts] using ih)
  | indexOf _ _ ih ih' => exact .intro trivial (by simp [parts, ih, ih'])
  | comparison _ _ _ ih ih' => exact .intro trivial (by simp [parts, ih, ih'])

end Expr

/-! ## Texts -/

/-- A text in which there is no opener. -/
def OpenerFree (cs : List Char) : Prop := ∀ opener : Opener, ¬ opener.spelling <:+: cs

theorem OpenerFree.of_infix {cs part : List Char} (h : OpenerFree cs) (inner : part <:+: cs) :
    OpenerFree part :=
  fun opener found => h opener (found.trans inner)

/-- There is no opener before the leftmost one. -/
theorem FirstOpener.openerFree {cs before inside : List Char} {opener : Opener}
    (h : FirstOpener cs before opener inside) : OpenerFree before := by
  rintro other ⟨earlier, others, rfl⟩
  have le := h.first earlier other (others ++ opener.spelling ++ inside) (by simp [h.split])
  obtain ⟨c, eq⟩ := other.exists_spelling_eq
  simp only [eq, List.length_append, List.length_cons, List.length_nil] at le
  omega

/-- Tokens of which the texts are not empty and hide no opener. -/
def TextsFormed (tokens : List Token) : Prop :=
  ∀ token ∈ tokens, ∀ value, token.kind = .text value → value ≠ "" ∧ OpenerFree value.toList

namespace TextsFormed

theorem append {tokens more : List Token} (h : TextsFormed tokens) (h' : TextsFormed more) :
    TextsFormed (tokens ++ more) :=
  List.forall_mem_append.mpr ⟨h, h'⟩

/-- Tokens without texts. -/
theorem of_forall {tokens : List Token} (h : ∀ token ∈ tokens, ∀ value, token.kind ≠ .text value) :
    TextsFormed tokens :=
  fun token mem value text => absurd text (h token mem value)

theorem textToken {cs : List Char} (h : OpenerFree cs) (line : Nat) :
    TextsFormed (textToken line cs) := by
  unfold SheetMarkup.textToken
  split
  · exact of_forall (by simp)
  · next nonempty =>
    intro token mem value text
    cases List.mem_singleton.mp mem
    cases text
    rw [String.toList_ofList]
    refine ⟨?_, h⟩
    intro empty
    exact nonempty (by simpa using congrArg String.toList empty)

theorem tag {line : Nat} {tag : Tag} {tokens : List Token} (h : tag.tokens line = .ok tokens) :
    TextsFormed tokens := by
  refine of_forall (Tag.forall_kind_of_mem_tokens (P := fun kind => ∀ value, kind ≠ .text value)
    (by simp) ?_ h)
  intro cs lexeme rest read value text
  exact (text ▸ Lexeme.kind_isInner_of_read read : (Token.Kind.text value).IsInner)

end TextsFormed

/-- What is kept of a text lies in the text. -/
theorem Trimming.split_snd_isInfix (trimming : Trimming) (cs : List Char) :
    (trimming.split cs).2 <:+: cs :=
  List.IsSuffix.isInfix ⟨(trimming.split cs).1, trimming.split_append cs⟩

theorem Text.trimEnd_isInfix (cs : List Char) : trimEnd cs <:+: cs := by
  obtain ⟨blanks, eq, -⟩ := exists_blanks_append_trimEnd cs
  exact List.IsPrefix.isInfix ⟨blanks, eq.symm⟩

/-- The texts among the tokens of a cut source end before its openers. -/
theorem Cut.textsFormed (cs : List Char) {line : Nat} {trimming : Trimming} {tokens : List Token}
    (h : (cut cs).tokens line trimming = .ok tokens) : TextsFormed tokens := by
  fun_induction cut cs generalizing line trimming tokens with
  | case1 cs find =>
      cases h
      have free : OpenerFree cs := Opener.find?_eq_none_iff.mp find
      exact (TextsFormed.textToken (free.of_infix (trimming.split_snd_isInfix cs)) _).append
        (.of_forall (by simp))
  | case2 => cases h
  | case3 cs text opener inside find tag rest _ ih =>
      obtain ⟨within, more, first, second, rfl⟩ := tokens_tag_eq_ok_iff.mp h
      have free := (Opener.find?_eq_some_iff.mp find).openerFree
      have kept := free.of_infix (trimming.split_snd_isInfix text)
      refine (TextsFormed.append ?_ (.tag first)).append (ih second)
      split
      · exact .textToken (kept.of_infix (Text.trimEnd_isInfix _)) _
      · exact .textToken kept _

/-- The texts among the tokens of a source are not empty and hide no opener. -/
theorem textsFormed_of_tokenize {source : String} {tokens : List Token}
    (h : tokenize source = .ok tokens) : TextsFormed tokens :=
  Cut.textsFormed _ h

/-! ## Trees -/

namespace Node

/-- The form of a node, apart from that of the nodes below it. -/
def Formed : Node → Prop
  | list _ nodes => ∀ node ∈ nodes, node.kind ≠ .element .workbook
  | text _ value => value ≠ "" ∧ OpenerFree value.toList
  | print _ _ => True
  | choice _ _ thenBody elseBody => thenBody.kind = .list ∧ ∀ body ∈ elseBody, body.kind = .list
  | loop _ _ _ body | definition _ _ _ body => body.kind = .list
  | root _ _ workbook => workbook.kind = .element .workbook
  | element _ e parameters body =>
    (if e = .drawing then body = none else ∃ inside, body = some inside ∧ inside.kind = .list) ∧
      parameters.keys = e.parameters.map Parameter.name ∧ parameters.keys.Nodup ∧
      List.Forall₂ Parameter.Fits e.parameters parameters.entries

/-- The expressions that stand in a node apart from the nodes below it. -/
def expressions : Node → List Expr
  | print _ value => [value]
  | choice _ condition _ _ => [condition]
  | loop _ _ iterable _ => [iterable]
  | element _ _ parameters _ => parameters.entries.map Prod.snd
  | list _ _ | text _ _ | definition _ _ _ _ | root _ _ _ => []

/-- Only a document root has a workbook right below it. -/
theorem Formed.kind_eq_root {node child : Node} (h : node.Formed) (mem : child ∈ node.children)
    (workbook : child.kind = .element .workbook) : node.kind = .root := by
  -- the bodies of the other nodes are lists, and a workbook is none
  have body : child.kind ≠ .list := by simp [workbook]
  cases node with
  | root => rfl
  | list => exact absurd workbook (h child mem)
  | text | print => cases mem
  | choice _ _ thenBody elseBody =>
      rcases List.mem_cons.mp mem with rfl | mem
      · exact absurd h.1 body
      · exact absurd (h.2 child (Option.mem_toList.mp mem)) body
  | loop | definition =>
      cases List.mem_singleton.mp mem
      exact absurd h body
  | element _ e _ inside =>
      have bodied := h.1
      split at bodied
      · subst bodied
        cases mem
      · obtain ⟨inside, rfl, list⟩ := bodied
        cases List.mem_singleton.mp mem
        exact absurd list body

/-- The child of a document root is a workbook. -/
theorem Formed.exists_workbook {node : Node} (h : node.Formed) (root : node.kind = .root) :
    ∃ workbook, node.children = [workbook] ∧ workbook.kind = .element .workbook := by
  cases node with
  | root _ _ workbook => exact ⟨workbook, rfl, h⟩
  | _ => cases root

/-- The expressions in a regular node are well-formed. -/
theorem Regular.wellFormed {attributes : OrderedMap String} {node : Node}
    (h : node.Regular attributes) : ∀ e ∈ node.expressions, e.WellFormed := by
  cases node with
  | print | choice => simpa [expressions, Regular] using h
  | loop => simpa [expressions] using h.2
  | element => exact List.forall_mem_map.mpr h.2
  | _ => simp [expressions]

end Node

variable {attributes : OrderedMap String} {tokens : List Token}

/-- An element has the form of its directive, and a document root has that of its workbook. -/
theorem Element.throughout_formed {e : Element} {parameters : OrderedMap Expr}
    (accepts : e.Accepts parameters) {body : Option Node}
    (bodied : if e = .drawing then body = none
      else ∃ inside, body = some inside ∧ inside.kind = .list)
    (inside : ∀ node ∈ body, node.Throughout Node.Formed) (line : Nat) :
    ((e.directive attributes).node line parameters body).Throughout Node.Formed := by
  have names := (Parameter.map_name_of_fits accepts.1).symm
  have element : (Node.element line e parameters body).Throughout Node.Formed :=
    .intro ⟨bodied, names, parameters.keys_nodup, accepts.1⟩
      (by simpa [Node.children] using inside)
  exact throughout_node element fun _ kind => kind

/-- The node of a directive is no workbook: that of a workbook is the document root around it. -/
theorem Element.node_kind_ne_workbook (e : Element) (line : Nat) (parameters : OrderedMap Expr)
    (body : Option Node) :
    ((e.directive attributes).node line parameters body).kind ≠ .element .workbook := by
  rw [node_directive]
  by_cases workbook : e = .workbook
  · simp [workbook, node_workbook, Node.kind]
  · simp [node_of_ne_workbook, workbook, Node.kind]

/-- The nodes that tokens give are no workbooks. -/
theorem Node.ComesFrom.kind_ne_workbook {node : Node}
    (h : node.ComesFrom (.spreadsheet attributes) tokens) : node.kind ≠ .element .workbook := by
  cases h with
  | text | print | alternative => simp [Node.kind]
  | lone _ _ found =>
      obtain ⟨e, -, rfl⟩ := Dialect.exists_element_of_find? found
      exact e.node_kind_ne_workbook _ _ _
  | enclosed opened =>
      obtain ⟨line, name, row, -, -, opening⟩ := opened
      cases opening with
      | directive _ found =>
          obtain ⟨e, -, rfl⟩ := Dialect.exists_element_of_find? found
          exact e.node_kind_ne_workbook _ _ _
      | _ => simp [OpenTag.node, Node.kind]

/-- A tag that writable tokens open makes a formed node around a formed list. -/
theorem Opening.throughout_formed {line start : Nat} {name : String} {row : List Token}
    {tag : OpenTag} (h : Opening (.spreadsheet attributes) line name row tag)
    (writable : WritableInside tokens) (subset : row ⊆ tokens) {nodes : List Node}
    (inside : (Node.list start nodes).Throughout Node.Formed) :
    (tag.node (.list start nodes)).Throughout Node.Formed := by
  cases h with
  | choice =>
      exact .intro ⟨rfl, by simp⟩ (by simpa [OpenTag.node, Node.children] using inside)
  | loop => exact .intro rfl (by simpa [OpenTag.node, Node.children] using inside)
  | definition => exact .intro rfl (by simpa [OpenTag.node, Node.children] using inside)
  | directive _ found hasBody bound =>
      obtain ⟨e, -, rfl⟩ := Dialect.exists_element_of_find? found
      have other : e ≠ .drawing := by simpa [Element.directive] using hasBody
      apply Element.throughout_formed (Element.accepts_of_parameters bound writable subset)
      · rw [if_neg other]
        exact ⟨_, rfl, rfl⟩
      · simpa using inside

/-- A tree that comes from the tokens of a source is formed. -/
theorem Node.ComesFrom.throughout_formed {node : Node}
    (h : node.ComesFrom (.spreadsheet attributes) tokens) (writable : WritableInside tokens)
    (texts : TextsFormed tokens) : node.Throughout Node.Formed := by
  -- the nodes of a body are no workbooks, as they come from tokens themselves
  have body : ∀ {start : Nat} {nodes : List Node},
      (∀ node ∈ nodes, node.ComesFrom (.spreadsheet attributes) tokens) →
      (∀ node ∈ nodes, node.Throughout Node.Formed) →
      (Node.list start nodes).Throughout Node.Formed :=
    fun comes formed => .list (fun node mem => (comes node mem).kind_ne_workbook) formed
  induction h with
  | text mem => exact .intro (texts _ mem _ rfl) (by simp [Node.children])
  | print => exact .intro trivial (by simp [Node.children])
  | lone _ subset found noBody bound =>
      obtain ⟨e, -, rfl⟩ := Dialect.exists_element_of_find? found
      have drawing : e = .drawing := by simpa [Element.directive] using noBody
      exact Element.throughout_formed (Element.accepts_of_parameters bound writable subset)
        (if_pos drawing ▸ rfl) (by simp) _
  | enclosed opened _ comes ih =>
      obtain ⟨line, name, row, -, subset, opening⟩ := opened
      exact opening.throughout_formed writable subset (body comes ih)
  | alternative _ _ comes _ comes' ih ih' =>
      refine .intro ⟨rfl, by simp [Node.kind]⟩ ?_
      simp only [Node.children, Option.toList, List.forall_mem_cons]
      exact ⟨body comes ih, body comes' ih', by simp⟩

/-- The body of a template is formed throughout. -/
theorem throughout_formed_of_readTemplate {file source : String} {template : Template}
    (h : (Dialect.spreadsheet attributes).readTemplate file source = .ok template) :
    template.body.Throughout Node.Formed ∧ template.body.kind = .list := by
  obtain ⟨tokens, tokenized, body, comes, eq⟩ := exists_tokens_of_readTemplate h
  have writable := writable_of_tokenize tokenized
  have texts := textsFormed_of_tokenize tokenized
  have nodes := comes.of_mem_node
  rw [eq]
  refine ⟨.list (fun node mem => (nodes node mem).kind_ne_workbook) ?_, rfl⟩
  exact fun node mem => (nodes node mem).throughout_formed writable texts

/-- In a formed list, a workbook stands right below a document root. -/
theorem Node.exists_root_of_workbook {node : Node} (formed : node.Throughout Node.Formed)
    (list : node.kind = .list) {o : Occurrence} (mem : o ∈ node.occurrences [])
    (workbook : o.node.kind = .element .workbook) :
    ∃ parent outer, o.around = parent :: outer ∧ parent.kind = .root := by
  rcases exists_parent_of_mem_occurrences mem with rfl | ⟨parent, outer, eq, below, parent_mem⟩
  · cases list.symm.trans workbook
  · have here := (formed.of_mem_occurrences parent_mem).here
    exact ⟨parent, outer, eq, here.kind_eq_root below workbook⟩

/-- Every node of a template that was read is formed, it is a workbook only if it stands right below
a document root, and the expressions in it are formed throughout. -/
theorem readTemplate_formed {file source : String} {template : Template}
    (h : (Dialect.spreadsheet attributes).readTemplate file source = .ok template) :
    ∀ o ∈ template.body.occurrences [],
      o.node.Formed ∧
      (o.node.kind = .element .workbook →
        ∃ parent outer, o.around = parent :: outer ∧ parent.kind = .root) ∧
      ∀ e ∈ o.node.expressions, e.Throughout Expr.Formed := by
  intro o mem
  obtain ⟨formed, list⟩ := throughout_formed_of_readTemplate h
  have regular := ((throughout_regular_of_readTemplate h).of_mem_occurrences mem).here
  refine ⟨(formed.of_mem_occurrences mem).here, ?_, ?_⟩
  · exact Node.exists_root_of_workbook formed list mem
  · exact fun e e_mem => (regular.wellFormed e e_mem).throughout_formed

/-- A text beside a workbook with a drawing. -/
theorem readTemplate_formed_drawing :
    let source := "x\x7b%workbook%\x7d\x7b%drawing a.b%\x7d\x7b%endworkbook%\x7d"
    ∃ template, (Dialect.spreadsheet .empty).readTemplate "a" source = .ok template ∧
      ∃ o ∈ template.body.occurrences [], o.node.kind = .element .workbook ∧ o.node.Formed ∧
        (∃ parent outer, o.around = parent :: outer ∧ parent.kind = .root) ∧
        ∀ e ∈ o.node.expressions, e.Throughout Expr.Formed := by
  intro source
  let drawing : Node := .element 1 .drawing ⟨[("path", .attribute (.name "a") "b"),
    ("properties", .list [])], by decide⟩ none
  let workbook : Node := .element 1 .workbook ⟨[("properties", .list [])], by decide⟩
    (some (.list 1 [drawing]))
  let body : Node := .list 1 [.text 1 "x", .root 1 .empty workbook]
  have read : (Dialect.spreadsheet .empty).readTemplate "a" source = .ok ⟨"a", body⟩ :=
    Dialect.readTemplate_of_bodyWithin 5 (by cbv) "a"
  have self := Node.self_mem_occurrences [] body
  have root := Node.child_mem_occurrences self (.root 1 .empty workbook)
    (by simp [body, Node.children])
  have mem := Node.child_mem_occurrences root workbook (by simp [Node.children])
  obtain ⟨formed, below, expressions⟩ := readTemplate_formed read _ mem
  exact ⟨_, read, _, mem, rfl, formed, below rfl, expressions⟩

end SheetMarkup
