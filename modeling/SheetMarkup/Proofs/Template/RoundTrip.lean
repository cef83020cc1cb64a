import Mathlib
import SheetMarkup.Proofs.Spreadsheet
import SheetMarkup.Proofs.Template.Leading
import SheetMarkup.Proofs.Template.Parameters
import SheetMarkup.Proofs.Template.Writing

/-!
# Written templates are read

What is written of a tree is read as the same tree up to its lines (`readTemplate_source`). The
proof goes by the tree. From every draft, the tokens of a node lead to the draft with the node
behind its others, whatever follows them (`Node.ReadBack`), and so do the tokens of nodes one after
another (`leads_nodes`). A tag opens a body, its nodes are read into the body, and the end tag puts
the whole into the draft outside (`readBack_around`).
-/

namespace SheetMarkup

open Token (Kind kinds)

/-! ## The rows of written tags -/

/-- The written parameters of an element are read as its parameters. -/
theorem Element.Accepts.parameters {e : Element} {parameters : OrderedMap Expr}
    (h : e.Accepts parameters) (attributes : OrderedMap String) {token : Token} {row : List Token}
    (spelled : kinds row = parameterRow parameters) :
    (e.directive attributes).Parameters token row parameters := by
  obtain ⟨fits, formed⟩ := h
  -- the names of the parameters are the keys of a map, so they differ
  have nodup : (e.parameters.map Parameter.name).Nodup := by
    rw [Parameter.map_name_of_fits fits]
    exact parameters.keys_nodup
  refine ⟨⟨e.parameters, nodup⟩, parameters.entries.map Prod.snd, Schema.ofList_eq_ok nodup, ?_,
    Schema.bind_of_fits fits⟩
  refine expressionRow_of_wellFormed ?_ ?_
  · intro value mem
    obtain ⟨entry, entry_mem, rfl⟩ := List.mem_map.mp mem
    exact formed entry entry_mem
  · rw [spelled, parameterRow, List.flatMap_map]

/-! ## Longer drafts -/

namespace Draft

/-- The draft with some more nodes in its innermost body. -/
def extend (draft : Draft) (nodes : List Node) : Draft :=
  ⟨⟨draft.body.line, nodes.reverse ++ draft.body.nodes⟩, draft.enclosing⟩

theorem extend_cons (draft : Draft) (node : Node) (nodes : List Node) :
    draft.extend (node :: nodes) = (draft.push node).extend nodes := by
  simp [extend, push, Body.push]

/-- A body that has been read, behind the tag that has opened it. -/
theorem node_extend_within (draft : Draft) (tag : OpenTag) (line : Nat) (nodes : List Node) :
    ((draft.within tag line).extend nodes).body.node = .list line nodes := by
  simp [extend, within, Body.node]

end Draft

open Draft (Leads)

/-! ## Nodes are read back -/

namespace Node

/-- What is written of a node is read as a node that is the same up to its lines. -/
def ReadBack (dialect : Dialect) (node : Node) : Prop :=
  ∀ (draft : Draft) (s : TokenStream) (tokens : List Token),
    kinds tokens = node.pieces.flatMap Piece.row →
    ∃ node', node'.unplaced = node.unplaced ∧ Leads dialect draft tokens s (draft.push node')

end Node

section Bodies

variable {dialect : Dialect} {nodes : List Node} {tokens : List Token} {name : String}
  {ks : List Kind} {tag : Nat → OpenTag}

/-- Nodes one after another are read back if each of them is. -/
theorem leads_nodes (h : ∀ node ∈ nodes, node.ReadBack dialect) (draft : Draft) (s : TokenStream)
    (spelled : kinds tokens = (nodes.flatMap Node.pieces).flatMap Piece.row) :
    ∃ nodes', nodes'.map Node.unplaced = nodes.map Node.unplaced ∧
      Leads dialect draft tokens s (draft.extend nodes') := by
  induction nodes generalizing draft tokens with
  | nil =>
      cases List.map_eq_nil_iff.mp spelled
      exact ⟨[], rfl, .refl dialect draft s⟩
  | cons node nodes ih =>
      have others : ∀ other ∈ nodes, other.ReadBack dialect := by
        intro other mem
        exact h other (by simp [mem])
      rw [List.flatMap_cons, List.flatMap_append] at spelled
      obtain ⟨taken, more, rfl, first, rest⟩ := List.map_eq_append_iff.mp spelled
      obtain ⟨node', same, leads⟩ := h node (by simp) draft (s.prepend more) taken first
      obtain ⟨nodes', same', leads'⟩ := ih others (draft.push node') rest
      refine ⟨node' :: nodes', ?_, ?_⟩
      · rw [List.map_cons, List.map_cons, same, same']
      · rw [Draft.extend_cons]
        exact leads.trans leads'

/-- A tag opens a body, and the nodes behind it are read into the body. -/
theorem leads_opened (begins : Begins name)
    (opening : ∀ line row, kinds row = ks → Opening dialect line name row (tag line))
    (body : ∀ node ∈ nodes, node.ReadBack dialect) (draft : Draft) (s : TokenStream)
    (spelled : kinds tokens =
      (Piece.block name ks).row ++ (nodes.flatMap Node.pieces).flatMap Piece.row) :
    ∃ line next nodes', nodes'.map Node.unplaced = nodes.map Node.unplaced ∧
      Leads dialect draft tokens s ((draft.within (tag line) next).extend nodes') := by
  obtain ⟨opener, inside, rfl, first, rest⟩ := List.map_eq_append_iff.mp spelled
  obtain ⟨opened, line, row, closed, rfl, inner⟩ := Draft.exists_blockTag_of_kinds first
  -- the body begins on the line of the token behind the tag
  have takes : draft.Takes dialect .atEnd (s.prepend inside).current.line
      (Draft.blockTag opened line name row closed)
      (draft.within (tag line) (s.prepend inside).current.line) :=
    .opening opened closed (Draft.not_endsAt begins draft) (opening line row inner)
  obtain ⟨nodes', same, leads⟩ := leads_nodes body
    (draft.within (tag line) (s.prepend inside).current.line) s rest
  exact ⟨line, _, nodes', same, takes.leads.trans leads⟩

/-- The end tag puts a body with its tag into the draft outside. -/
theorem leads_ended {tag : OpenTag} (ends : name ∈ tag.ends) (other : name ≠ "else")
    (dialect : Dialect) (draft : Draft) (next : Nat) (nodes : List Node) (s : TokenStream)
    (spelled : kinds tokens = (Piece.block name []).row) :
    Leads dialect ((draft.within tag next).extend nodes) tokens s
      (draft.push (tag.node (.list next nodes))) := by
  obtain ⟨opened, line, row, closed, rfl, inner⟩ := Draft.exists_blockTag_of_kinds spelled
  cases List.map_eq_nil_iff.mp inner
  have takes : ((draft.within tag next).extend nodes).Takes dialect .atEnd s.current.line
      (Draft.blockTag opened line name [] closed)
      (draft.push (tag.node ((draft.within tag next).extend nodes).body.node)) :=
    .close opened line closed rfl ends other
  rw [Draft.node_extend_within] at takes
  exact takes.leads

/-- The tag between the bodies of a condition begins the second one. -/
theorem leads_parted (dialect : Dialect) (draft : Draft) (line : Nat) (condition : Expr)
    (next : Nat) (nodes : List Node) (s : TokenStream)
    (spelled : kinds tokens = (Piece.block "else" []).row) :
    Leads dialect ((draft.within (.thenBody line condition) next).extend nodes) tokens s
      (draft.within (.elseBody line condition (.list next nodes)) s.current.line) := by
  obtain ⟨opened, place, row, closed, rfl, inner⟩ := Draft.exists_blockTag_of_kinds spelled
  cases List.map_eq_nil_iff.mp inner
  have takes : ((draft.within (.thenBody line condition) next).extend nodes).Takes dialect .atEnd
      s.current.line (Draft.blockTag opened place "else" [] closed)
      (draft.within (.elseBody line condition
        ((draft.within (.thenBody line condition) next).extend nodes).body.node)
          s.current.line) :=
    .alternative opened place closed rfl
  rw [Draft.node_extend_within] at takes
  exact takes.leads

/-- A node that is written as a tag with a body is read back if the nodes of the body are. -/
theorem readBack_around {node : Node} {start : Nat} {ending : String}
    (written : node.pieces =
      Piece.block name ks :: (Node.list start nodes).pieces ++ [Piece.block ending []])
    (begins : Begins name)
    (opening : ∀ line row, kinds row = ks → Opening dialect line name row (tag line))
    (ends : ∀ line, ending ∈ (tag line).ends) (other : ending ≠ "else")
    (made : ∀ line body, body.unplaced = (Node.list start nodes).unplaced →
      ((tag line).node body).unplaced = node.unplaced)
    (body : ∀ node ∈ nodes, node.ReadBack dialect) : node.ReadBack dialect := by
  intro draft s tokens spelled
  rw [written, Node.pieces_list, List.flatMap_append, List.flatMap_cons,
    List.flatMap_singleton] at spelled
  obtain ⟨opened, closer, rfl, first, rest⟩ := List.map_eq_append_iff.mp spelled
  obtain ⟨line, next, nodes', same, leads⟩ :=
    leads_opened begins opening body draft (s.prepend closer) first
  refine ⟨(tag line).node (.list next nodes'), ?_,
    leads.trans (leads_ended (ends line) other dialect draft next nodes' s rest)⟩
  exact made line _ (Node.unplaced_list_congr same next start)

end Bodies

namespace Node

variable {dialect : Dialect} {nodes others : List Node}

theorem readBack_text (line : Nat) (value : String) : (text line value).ReadBack dialect := by
  intro draft s tokens spelled
  rw [pieces] at spelled
  obtain ⟨⟨_, place⟩, _, rfl, rfl, nothing⟩ := List.map_eq_cons_iff.mp spelled
  cases List.map_eq_nil_iff.mp nothing
  refine ⟨.text place value, ?_, (Draft.Takes.text value place).leads⟩
  rw [unplaced, unplaced]

theorem readBack_print {value : Expr} (h : value.WellFormed) (line : Nat) :
    (print line value).ReadBack dialect := by
  intro draft s tokens spelled
  rw [pieces, List.flatMap_singleton] at spelled
  obtain ⟨⟨_, place⟩, tokens, rfl, rfl, behind⟩ := List.map_eq_cons_iff.mp spelled
  obtain ⟨row, ending, rfl, inner, ends⟩ := List.map_eq_append_iff.mp behind
  obtain ⟨⟨_, closed⟩, _, rfl, rfl, nothing⟩ := List.map_eq_cons_iff.mp ends
  cases List.map_eq_nil_iff.mp nothing
  refine ⟨.print place value, ?_, (Draft.Takes.output place closed (h.derived_of_row inner)).leads⟩
  rw [unplaced, unplaced]

theorem readBack_choice {condition : Expr} (h : condition.WellFormed)
    (body : ∀ node ∈ nodes, node.ReadBack dialect) (line start : Nat) :
    (choice line condition (.list start nodes) none).ReadBack dialect := by
  have written : (choice line condition (.list start nodes) none).pieces =
      .block "if" condition.row :: (list start nodes).pieces ++ [Piece.block "endif" []] := by
    rw [pieces_list, pieces, pieces_list]
  refine readBack_around written ⟨by decide, by decide⟩
    (fun place row inner => .choice (h.derived_of_row inner)) (fun _ => by simp [OpenTag.ends])
    (by decide) (fun place body same => ?_) body
  rw [OpenTag.node, unplaced, unplaced, same]

theorem readBack_loop {binding : String} {iterable : Expr} (h : iterable.WellFormed)
    (body : ∀ node ∈ nodes, node.ReadBack dialect) (line start : Nat) :
    (loop line binding iterable (.list start nodes)).ReadBack dialect := by
  have written : (loop line binding iterable (.list start nodes)).pieces =
      .block "for" (.name binding :: .name "in" :: iterable.row) :: (list start nodes).pieces ++
        [Piece.block "endfor" []] := by
    rw [pieces_list, pieces, pieces_list]
  refine readBack_around written ⟨by decide, by decide⟩
    (fun place row inner => .loop inner h.derived) (fun _ => List.mem_singleton_self _)
    (by decide) (fun place body same => ?_) body
  rw [OpenTag.node, unplaced, unplaced, same]

theorem readBack_definition (name : String) (arguments : List String)
    (body : ∀ node ∈ nodes, node.ReadBack dialect) (line start : Nat) :
    (definition line name arguments (.list start nodes)).ReadBack dialect := by
  have written : (definition line name arguments (.list start nodes)).pieces =
      .block "macro" (.name name :: .symbol .openParen :: nameRow arguments ++
        [Token.Kind.symbol .closeParen]) :: (list start nodes).pieces ++
          [Piece.block "endmacro" []] := by
    rw [pieces_list, pieces, pieces_list]
  refine readBack_around written ⟨by decide, by decide⟩
    (fun place row inner => .definition inner) (fun _ => List.mem_singleton_self _)
    (by decide) (fun place body same => ?_) body
  rw [OpenTag.node, unplaced, unplaced, same]

/-- The second body of a condition is read into the draft outside of the first one. -/
theorem readBack_alternative {condition : Expr} (h : condition.WellFormed)
    (body : ∀ node ∈ nodes, node.ReadBack dialect)
    (body' : ∀ node ∈ others, node.ReadBack dialect) (line start other : Nat) :
    (choice line condition (.list start nodes) (some (.list other others))).ReadBack dialect := by
  intro draft s tokens spelled
  have parts : kinds tokens =
      ((Piece.block "if" condition.row).row ++ (nodes.flatMap Node.pieces).flatMap Piece.row) ++
        ((Piece.block "else" []).row ++ ((others.flatMap Node.pieces).flatMap Piece.row ++
          (Piece.block "endif" []).row)) := by
    rw [spelled, pieces, pieces_list, pieces_list]
    simp only [List.flatMap_append, List.flatMap_cons, List.flatMap_nil, List.append_nil,
      List.append_assoc, List.cons_append]
  obtain ⟨before, behind, rfl, first, parts⟩ := List.map_eq_append_iff.mp parts
  obtain ⟨middle, behind, rfl, second, parts⟩ := List.map_eq_append_iff.mp parts
  obtain ⟨inside, closer, rfl, third, last⟩ := List.map_eq_append_iff.mp parts
  have begins : Begins "if" := ⟨by decide, by decide⟩
  obtain ⟨place, next, nodes', same, leads⟩ := leads_opened begins
    (fun place row inner => Opening.choice (h.derived_of_row inner)) body draft
    (s.prepend (middle ++ (inside ++ closer))) first
  -- the two bodies stand in the same draft, the first one within the tag of the second
  have parted := leads_parted dialect draft place condition next nodes'
    (s.prepend (inside ++ closer)) second
  let between := (s.prepend (inside ++ closer)).current.line
  let tag : OpenTag := .elseBody place condition (.list next nodes')
  obtain ⟨others', same', leads'⟩ := leads_nodes body' (draft.within tag between)
    (s.prepend closer) third
  have ends : "endif" ∈ tag.ends := List.mem_singleton_self _
  have ended := leads_ended ends (by decide) dialect draft between others' s last
  refine ⟨tag.node (.list between others'), ?_, leads.trans (parted.trans (leads'.trans ended))⟩
  rw [OpenTag.node, unplaced_alternative, unplaced_alternative,
    unplaced_list_congr same next start, unplaced_list_congr same' between other]

/-! ## Elements -/

variable {attributes : OrderedMap String}

theorem find?_tag (attributes : OrderedMap String) (e : Element) :
    (Dialect.spreadsheet attributes).find? e.tag = some (e.directive attributes) := by
  rw [Dialect.find?_spreadsheet, Element.ofTag?_tag]
  rfl

theorem opening_element {e : Element} (body : e ≠ .drawing) {parameters : OrderedMap Expr}
    (accepts : e.Accepts parameters) (line : Nat) {row : List Token}
    (spelled : kinds row = parameterRow parameters) :
    Opening (.spreadsheet attributes) line e.tag row
      (.directive line (e.directive attributes) parameters) :=
  .directive (not_mem_host_tag e) (find?_tag attributes e) (by simpa [Element.directive] using body)
    (accepts.parameters attributes spelled)

theorem readBack_element {e : Element} (other : e ≠ .workbook) (body : e ≠ .drawing)
    {parameters : OrderedMap Expr} (accepts : e.Accepts parameters)
    (nodes_back : ∀ node ∈ nodes, node.ReadBack (.spreadsheet attributes)) (line start : Nat) :
    (element line e parameters (some (.list start nodes))).ReadBack (.spreadsheet attributes) := by
  have written : (element line e parameters (some (.list start nodes))).pieces =
      .block e.tag (parameterRow parameters) :: (list start nodes).pieces ++
        [Piece.block ("end" ++ e.tag) []] := by
    rw [pieces_list, pieces, pieces_list]
  refine readBack_around written (begins_tag e)
    (fun place row inner => opening_element body accepts place inner)
    (fun _ => List.mem_singleton_self _) ?_ (fun place body same => ?_) nodes_back
  · intro same
    exact (e.directive attributes).else_ne_endTag (List.mem_singleton.mpr same.symm)
  · rw [OpenTag.node, e.node_directive, Element.node_of_ne_workbook other, unplaced, unplaced, same]

theorem readBack_root {parameters : OrderedMap Expr} (accepts : Element.workbook.Accepts parameters)
    (body : ∀ node ∈ nodes, node.ReadBack (.spreadsheet attributes)) (line place start : Nat) :
    (root line attributes (.element place .workbook parameters
      (some (.list start nodes)))).ReadBack (.spreadsheet attributes) := by
  have written : (root line attributes (.element place .workbook parameters
      (some (.list start nodes)))).pieces =
      .block "workbook" (parameterRow parameters) :: (list start nodes).pieces ++
        [Piece.block "endworkbook" []] := by
    rw [pieces_list, pieces, pieces, pieces_list]
    rfl
  refine readBack_around written (begins_tag .workbook)
    (fun place row inner => opening_element (by decide) accepts place inner)
    (fun _ => List.mem_singleton_self _) (by decide) (fun place body same => ?_) body
  rw [OpenTag.node, Element.node_directive, Element.node_workbook, unplaced, unplaced, unplaced,
    unplaced, same]

theorem readBack_drawing {parameters : OrderedMap Expr}
    (accepts : Element.drawing.Accepts parameters) (line : Nat) :
    (element line .drawing parameters none).ReadBack (.spreadsheet attributes) := by
  intro draft s tokens spelled
  rw [pieces, List.flatMap_singleton] at spelled
  obtain ⟨opened, place, row, closed, rfl, inner⟩ := Draft.exists_blockTag_of_kinds spelled
  have lone : draft.Takes (.spreadsheet attributes) .atEnd s.current.line
      (Draft.blockTag opened place "drawing" row closed)
      (draft.push (.element place .drawing parameters none)) :=
    .lone opened place closed (Draft.not_endsAt (begins_tag .drawing) draft)
      (not_mem_host_tag .drawing) (find?_tag attributes .drawing) (by simp [Element.directive])
      (accepts.parameters attributes inner)
  refine ⟨.element place .drawing parameters none, ?_, lone.leads⟩
  rw [unplaced, unplaced]

/-- What can be written is read back. -/
theorem WellFormed.readBack {node : Node} (h : node.WellFormed attributes) :
    node.ReadBack (.spreadsheet attributes) := by
  induction h with
  | text => exact readBack_text _ _
  | print value => exact readBack_print value _
  | choice condition _ ih => exact readBack_choice condition ih _ _
  | alternative condition _ _ ih ih' => exact readBack_alternative condition ih ih' _ _ _
  | loop _ iterable _ ih => exact readBack_loop iterable ih _ _
  | definition _ _ _ ih => exact readBack_definition _ _ ih _ _
  | root accepts _ ih => exact readBack_root accepts ih _ _ _
  | element other body accepts _ ih => exact readBack_element other body accepts ih _ _
  | drawing accepts => exact readBack_drawing accepts _

end Node

/-- The source that is written of a tree is read as the same tree up to its lines. -/
theorem readTemplate_source {attributes : OrderedMap String} {nodes : List Node}
    (h : ∀ node ∈ nodes, node.WellFormed attributes) (file : String) (line : Nat) :
    ∃ template, (Dialect.spreadsheet attributes).readTemplate file (Node.list line nodes).source =
        .ok template ∧
      template.file = file ∧ template.body.unplaced = (Node.list line nodes).unplaced := by
  have pieces : ∀ piece ∈ (Node.list line nodes).pieces, piece.WellFormed := by
    intro piece mem
    rw [Node.pieces_list] at mem
    obtain ⟨node, node_mem, mem⟩ := List.mem_flatMap.mp mem
    exact (h node node_mem).pieces piece mem
  obtain ⟨tokens, tokenized, spelled⟩ := tokenize_source pieces
  obtain ⟨written, ending, rfl, first, last⟩ := List.map_eq_append_iff.mp spelled
  obtain ⟨⟨_, finish⟩, _, rfl, rfl, nothing⟩ := List.map_eq_cons_iff.mp last
  cases List.map_eq_nil_iff.mp nothing
  rw [Node.pieces_list] at first
  let start := (TokenStream.current ⟨written, finish⟩).line
  obtain ⟨nodes', same, leads⟩ := leads_nodes (fun node mem => (h node mem).readBack)
    (Draft.start start) ⟨[], finish⟩ first
  -- all nodes are read into the outermost body, and the end is reached there
  have body : ((Draft.start start).extend nodes').body.node = .list start nodes' := by
    simp [Draft.extend, Draft.start, Body.node]
  have reads := leads _ (.done rfl rfl)
  rw [body] at reads
  refine ⟨⟨file, .list start nodes'⟩, ?_, rfl, Node.unplaced_list_congr same _ _⟩
  refine readTemplate_eq_ok_iff.mpr ⟨rfl, _, tokenized, ?_⟩
  rw [TokenStream.ofList_append_eof]
  simpa [TokenStream.prepend] using reads

/-- Two texts, and a sheet whose first parameter is a name and whose second one is a list. -/
theorem readTemplate_source_sheet :
    let sheet : Node := .element 1 .sheet
      ⟨[("index", .name "a"), ("properties", .list [.integer 1])], by decide⟩
      (some (.list 1 [.print 1 (.index (.name "b") (.string "\""))]))
    let body : Node := .list 1 [.text 1 "x", .text 1 "\ny", sheet]
    body.source = "x\x7b# #\x7d\n\ny\x7b% sheet a [ 1 , ] %\x7d\n" ++
      "\x7b\x7b ( b ) [ \"\\\"\" ] \x7d\x7d\x7b% endsheet %\x7d\n" ∧
      ∃ template, (Dialect.spreadsheet .empty).readTemplate "t" body.source = .ok template ∧
        template.file = "t" ∧ template.body.unplaced = body.unplaced := by
  intro sheet body
  have a : (Expr.name "a").WellFormed := .name ⟨'a', [], rfl, rfl, by simp⟩ (by decide)
  have b : (Expr.name "b").WellFormed := .name ⟨'b', [], rfl, rfl, by simp⟩ (by decide)
  have one : (Expr.list [.integer 1]).WellFormed := .list (by simpa using .integer 1)
  have accepts : Element.sheet.Accepts
      ⟨[("index", .name "a"), ("properties", .list [.integer 1])], by decide⟩ :=
    ⟨.cons ⟨rfl, rfl⟩ (.cons ⟨rfl, rfl⟩ .nil), by simpa using ⟨a, one⟩⟩
  refine ⟨by cbv, readTemplate_source (fun node mem => ?_) "t" 1⟩
  simp only [List.mem_cons, List.not_mem_nil, or_false] at mem
  rcases mem with rfl | rfl | rfl
  · exact .text (by decide) (.of_notMem (by decide))
  · exact .text (by decide) (.of_notMem (by decide))
  · refine .element (by decide) (by decide) accepts ?_
    rw [List.forall_mem_singleton]
    exact .print (.indexOf b (.string _))

end SheetMarkup
