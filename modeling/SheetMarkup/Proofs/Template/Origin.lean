import SheetMarkup.Proofs.Source.Shape
import SheetMarkup.Proofs.Template.Constructs

/-!
# Where nodes come from

A template is read with a stack of open tags, but what comes of it is a tree whose nodes can be told
one by one: each comes from tokens of the source (`Node.ComesFrom`), a text or a printed value from
its own, a node with a body from a tag that was opened and from the nodes of its body. What holds of
all nodes of a template is proved by induction on where they come from.

A draft comes from tokens if its nodes and its open tags do. A construct keeps it so
(`Draft.Takes.comesFrom`), hence a run does (`Draft.Reads.comesFrom`), and the body of a template
comes from the tokens of its source (`exists_tokens_of_readTemplate`).
-/

namespace SheetMarkup

open Grammar
open Token (kinds)

/-! ## Whole trees -/

/-- What holds of a node and of all nodes below it. -/
inductive Node.Throughout (P : Node → Prop) : Node → Prop
  | intro {node : Node} : P node → (∀ child ∈ node.children, child.Throughout P) →
      Throughout P node

namespace Node.Throughout

variable {P : Node → Prop} {node : Node}

theorem here (h : node.Throughout P) : P node := by
  cases h with
  | intro here _ => exact here

theorem of_mem_children (h : node.Throughout P) : ∀ child ∈ node.children, child.Throughout P := by
  cases h with
  | intro _ below => exact below

/-- A list holds nothing below it but its nodes. -/
theorem list {line : Nat} {nodes : List Node} (here : P (.list line nodes))
    (h : ∀ node ∈ nodes, node.Throughout P) : (Node.list line nodes).Throughout P :=
  .intro here h

end Node.Throughout

/-! ## Nodes from tokens -/

section

variable (dialect : Dialect) (tokens : List Token)

/-- A tag that some of the tokens open. -/
def OpenTag.OpenedBy (tag : OpenTag) : Prop :=
  ∃ line name row, ⟨.name name, line⟩ ∈ tokens ∧ row ⊆ tokens ∧ Opening dialect line name row tag

/-- The nodes that tokens can give, each on the line of one of them. -/
inductive Node.ComesFrom : Node → Prop
  | text {value : String} {line : Nat} : ⟨.text value, line⟩ ∈ tokens →
      ComesFrom (.text line value)
  | print {row : List Token} {e : Expr} {line : Nat} : ⟨.opening .output, line⟩ ∈ tokens →
      row ⊆ tokens → Expression (kinds row) e → ComesFrom (.print line e)
  | lone {line : Nat} {name : String} {row : List Token} {d : Directive}
      {parameters : OrderedMap Expr} : ⟨.name name, line⟩ ∈ tokens → row ⊆ tokens →
      dialect.find? name = some d → ¬ d.hasBody → d.Parameters ⟨.name name, line⟩ row parameters →
      ComesFrom (d.node line parameters none)
  | enclosed {tag : OpenTag} {start : Nat} {nodes : List Node} : tag.OpenedBy dialect tokens →
      start ∈ tokens.map Token.line → (∀ node ∈ nodes, node.ComesFrom) →
      ComesFrom (tag.node (.list start nodes))
  | alternative {line start other : Nat} {condition : Expr} {nodes others : List Node} :
      (OpenTag.thenBody line condition).OpenedBy dialect tokens →
      start ∈ tokens.map Token.line → (∀ node ∈ nodes, node.ComesFrom) →
      other ∈ tokens.map Token.line → (∀ node ∈ others, node.ComesFrom) →
      ComesFrom (.choice line condition (.list start nodes) (some (.list other others)))

/-- A body that starts on the line of a token, with nodes that come from tokens. -/
def Body.ComesFrom (body : Body) : Prop :=
  body.line ∈ tokens.map Token.line ∧ ∀ node ∈ body.nodes, node.ComesFrom dialect tokens

/-- An open tag that comes from tokens. One that `else` parted has its first body already. -/
def OpenTag.ComesFrom : OpenTag → Prop
  | elseBody line condition first => (thenBody line condition).OpenedBy dialect tokens ∧
      ∃ body : Body, body.ComesFrom dialect tokens ∧ first = body.node
  | tag => tag.OpenedBy dialect tokens

/-- A draft whose bodies and open tags come from tokens. -/
structure Draft.ComesFrom (draft : Draft) : Prop where
  body : draft.body.ComesFrom dialect tokens
  enclosing : ∀ entry ∈ draft.enclosing,
    entry.1.ComesFrom dialect tokens ∧ entry.2.ComesFrom dialect tokens

end

variable {dialect : Dialect} {tokens : List Token}

theorem OpenTag.OpenedBy.comesFrom {tag : OpenTag} (h : tag.OpenedBy dialect tokens) :
    tag.ComesFrom dialect tokens := by
  cases tag with
  | elseBody =>
      -- no tag opens a second body
      obtain ⟨_, _, _, -, -, opening⟩ := h
      cases opening
  | _ => exact h

namespace Body

theorem ComesFrom.push {body : Body} (h : body.ComesFrom dialect tokens) {node : Node}
    (comes : node.ComesFrom dialect tokens) : (body.push node).ComesFrom dialect tokens := by
  refine ⟨h.1, ?_⟩
  intro other mem
  rcases List.mem_cons.mp mem with rfl | mem
  · exact comes
  · exact h.2 other mem

/-- The nodes of a body are those below its node. -/
theorem ComesFrom.of_mem_node {body : Body} (h : body.ComesFrom dialect tokens) :
    ∀ node ∈ body.nodes.reverse, node.ComesFrom dialect tokens :=
  fun node mem => h.2 node (List.mem_reverse.mp mem)

theorem comesFrom_empty {line : Nat} (mem : line ∈ tokens.map Token.line) :
    Body.ComesFrom dialect tokens ⟨line, []⟩ :=
  ⟨mem, by simp⟩

end Body

/-- The node of a tag comes from tokens if the tag and its last body do. -/
theorem OpenTag.ComesFrom.node {tag : OpenTag} (h : tag.ComesFrom dialect tokens) {body : Body}
    (inside : body.ComesFrom dialect tokens) :
    (tag.node body.node).ComesFrom dialect tokens := by
  cases tag with
  | elseBody line condition first =>
      obtain ⟨opened, before, inside', rfl⟩ := h
      exact .alternative opened inside'.1 inside'.of_mem_node inside.1 inside.of_mem_node
  | _ => exact .enclosed h inside.1 inside.of_mem_node

namespace Draft

variable {draft draft' : Draft}

theorem ComesFrom.push (h : draft.ComesFrom dialect tokens) {node : Node}
    (comes : node.ComesFrom dialect tokens) : (draft.push node).ComesFrom dialect tokens :=
  ⟨h.body.push comes, h.enclosing⟩

theorem ComesFrom.within (h : draft.ComesFrom dialect tokens) {tag : OpenTag}
    (opened : tag.ComesFrom dialect tokens) {line : Nat} (mem : line ∈ tokens.map Token.line) :
    (draft.within tag line).ComesFrom dialect tokens := by
  refine ⟨Body.comesFrom_empty mem, ?_⟩
  intro entry entry_mem
  rcases List.mem_cons.mp entry_mem with rfl | entry_mem
  · exact ⟨opened, h.body⟩
  · exact h.enclosing entry entry_mem

/-- What is around the innermost body comes from tokens as well. -/
theorem ComesFrom.outer (h : draft.ComesFrom dialect tokens) {tag : OpenTag} {outer : Body}
    {enclosing : List (OpenTag × Body)} (around : draft.enclosing = (tag, outer) :: enclosing) :
    tag.ComesFrom dialect tokens ∧ Draft.ComesFrom dialect tokens ⟨outer, enclosing⟩ := by
  have all := h.enclosing
  rw [around] at all
  obtain ⟨tag_comes, outer_comes⟩ := all (tag, outer) (by simp)
  exact ⟨tag_comes, outer_comes, fun entry mem => all entry (by simp [mem])⟩

/-- The name of a block tag and what stands behind it are among its tokens. -/
theorem subset_of_blockTag_subset {opened line closed : Nat} {name : String} {row : List Token}
    (h : blockTag opened line name row closed ⊆ tokens) :
    ⟨.name name, line⟩ ∈ tokens ∧ row ⊆ tokens := by
  refine ⟨h (by simp [blockTag]), ?_⟩
  intro token mem
  exact h (by simp [blockTag, mem])

/-- A construct of tokens keeps a draft one that comes from them. -/
theorem Takes.comesFrom {bound : Bound} {next : Nat} {taken : List Token}
    (takes : draft.Takes dialect bound next taken draft') (h : draft.ComesFrom dialect tokens)
    (subset : taken ⊆ tokens) (behind : next ∈ tokens.map Token.line) :
    draft'.ComesFrom dialect tokens := by
  cases takes with
  | text value line => exact h.push (.text (subset (by simp)))
  | @output row e line closed derived =>
      have row_subset : row ⊆ tokens := by
        intro token mem
        exact subset (by simp [mem])
      exact h.push (.print (subset (by simp)) row_subset derived)
  | opening opened closed _ opening =>
      obtain ⟨named, row_subset⟩ := subset_of_blockTag_subset subset
      have opened : OpenTag.OpenedBy dialect tokens _ := ⟨_, _, _, named, row_subset, opening⟩
      exact h.within opened.comesFrom behind
  | lone opened line closed _ _ found noBody bound =>
      obtain ⟨named, row_subset⟩ := subset_of_blockTag_subset subset
      exact h.push (.lone named row_subset found noBody bound)
  | @alternative condition outer enclosing start opened line closed around =>
      obtain ⟨tag_comes, outer_comes⟩ := h.outer around
      have parted : (OpenTag.elseBody start condition draft.body.node).ComesFrom dialect tokens :=
        ⟨tag_comes, draft.body, h.body, rfl⟩
      exact outer_comes.within parted behind
  | close opened line closed around _ _ =>
      obtain ⟨tag_comes, outer_comes⟩ := h.outer around
      exact outer_comes.push (tag_comes.node h.body)

/-- What is read from tokens comes from them. -/
theorem Reads.comesFrom {s : TokenStream} {node : Node} (reads : Reads dialect draft s node)
    (h : draft.ComesFrom dialect tokens) (subset : s.remaining ⊆ tokens) :
    ∃ body : Body, body.ComesFrom dialect tokens ∧ node = body.node := by
  induction reads with
  | @done draft s _ _ => exact ⟨draft.body, h.body, rfl⟩
  | @more draft draft' s taken node takes _ ih =>
      rw [TokenStream.remaining_prepend, List.append_subset] at subset
      obtain ⟨tail, ahead⟩ := s.exists_remaining_eq
      have behind : s.current.line ∈ tokens.map Token.line :=
        List.mem_map_of_mem (subset.2 (by simp [ahead]))
      exact ih (takes.comesFrom h subset.1 behind) subset.2

end Draft

/-- The body of a template comes from the tokens of its source. -/
theorem exists_tokens_of_readTemplate {file source : String} {template : Template}
    (h : dialect.readTemplate file source = .ok template) :
    ∃ tokens, tokenize source = .ok tokens ∧
      ∃ body : Body, body.ComesFrom dialect tokens ∧ template.body = body.node := by
  obtain ⟨-, tokens, tokenized, reads⟩ := readTemplate_eq_ok_iff.mp h
  obtain ⟨init, line, rfl, -⟩ := (tokenize_shape tokenized).1.exists_eq_append_eof
  rw [TokenStream.ofList_append_eof] at reads
  -- the first body starts on the line of the first token
  have first : (TokenStream.current ⟨init, line⟩).line ∈
      (init ++ [(⟨.eof, line⟩ : Token)]).map Token.line := by
    obtain ⟨tail, ahead⟩ := TokenStream.exists_remaining_eq ⟨init, line⟩
    have remaining : TokenStream.remaining ⟨init, line⟩ = init ++ [⟨.eof, line⟩] := rfl
    rw [← remaining, ahead]
    simp
  have start : (Draft.start (TokenStream.current ⟨init, line⟩).line).ComesFrom dialect
      (init ++ [⟨.eof, line⟩]) :=
    ⟨Body.comesFrom_empty first, by simp [Draft.start]⟩
  exact ⟨_, tokenized, reads.comesFrom start (List.Subset.refl _)⟩

/-! ## The lines of nodes -/

/-- A node is on the line of a token. -/
def Node.OnLineOf (tokens : List Token) (node : Node) : Prop :=
  node.line ∈ tokens.map Token.line

/-- A directive that puts nodes on no other lines than that of its tag and those of the nodes in its
body: what holds of these lines holds of the lines of its node and of all nodes below it. -/
def Directive.KeepsLines (d : Directive) : Prop :=
  ∀ (P : Nat → Prop) (line : Nat) (parameters : OrderedMap Expr) (body : Option Node), P line →
    (∀ node ∈ body, node.Throughout fun other => P other.line) →
      (d.node line parameters body).Throughout fun other => P other.line

/-- The node of a directive is that of its element, or else the document root around a workbook. -/
theorem Element.throughout_node {attributes : OrderedMap String} {P : Node → Prop} {e : Element}
    {line : Nat} {parameters : OrderedMap Expr} {body : Option Node}
    (element : (Node.element line e parameters body).Throughout P)
    (root : ∀ workbook : Node, workbook.kind = .element .workbook →
      P (.root line attributes workbook)) :
    ((e.directive attributes).node line parameters body).Throughout P := by
  rw [node_directive]
  by_cases workbook : e = .workbook
  · subst workbook
    rw [node_workbook]
    exact .intro (root _ rfl) (by simpa [Node.children] using element)
  · rwa [node_of_ne_workbook workbook]

/-- The node of an element is on the line of its tag, and so is the document root around a
workbook. -/
theorem Element.keepsLines_directive (attributes : OrderedMap String) (e : Element) :
    (e.directive attributes).KeepsLines := by
  intro P line parameters body here inside
  have element : (Node.element line e parameters body).Throughout fun other => P other.line :=
    .intro here (by simpa [Node.children] using inside)
  exact throughout_node element fun _ _ => here

/-- All nodes of a tree that comes from tokens are on lines of tokens, if the directives put none
on other lines. -/
theorem Node.ComesFrom.throughout_onLineOf {node : Node} (h : node.ComesFrom dialect tokens)
    (keeps : ∀ name d, dialect.find? name = some d → d.KeepsLines) :
    node.Throughout (Node.OnLineOf tokens) := by
  induction h with
  | text mem => exact .intro (List.mem_map_of_mem mem) (by simp [Node.children])
  | print mem => exact .intro (List.mem_map_of_mem mem) (by simp [Node.children])
  | @lone line name row d parameters mem _ found =>
      exact keeps name d found _ line parameters none (List.mem_map_of_mem mem) (by simp)
  | @enclosed tag start nodes opened begins _ ih =>
      have body : (Node.list start nodes).Throughout (Node.OnLineOf tokens) := .list begins ih
      obtain ⟨line, name, row, mem, -, opening⟩ := opened
      have line_mem : line ∈ tokens.map Token.line := List.mem_map_of_mem mem
      cases opening with
      | @directive _ _ d parameters _ found =>
          refine keeps name d found _ line parameters _ line_mem fun node mem => ?_
          cases mem
          exact body
      | _ => exact .intro line_mem (by simpa [OpenTag.node, Node.children] using body)
  | alternative opened begins _ begins' _ ih ih' =>
      obtain ⟨line, name, row, mem, -, opening⟩ := opened
      cases opening
      refine .intro (List.mem_map_of_mem mem) ?_
      simp only [Node.children, Option.toList, List.forall_mem_cons]
      exact ⟨.list begins ih, .list begins' ih', by simp⟩

/-- The nodes of a body that comes from tokens are then on lines of tokens, and so is its list. -/
theorem Body.ComesFrom.throughout_onLineOf {body : Body} (h : body.ComesFrom dialect tokens)
    (keeps : ∀ name d, dialect.find? name = some d → d.KeepsLines) :
    body.node.Throughout (Node.OnLineOf tokens) :=
  .list h.1 fun node mem => (h.of_mem_node node mem).throughout_onLineOf keeps

end SheetMarkup
