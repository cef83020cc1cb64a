import Mathlib
import SheetMarkup.Proofs.Source.Appending
import SheetMarkup.Proofs.Template.Leading
import SheetMarkup.Proofs.Template.Writing

/-!
# Sources inside of tags

What a source means does not depend on the tag around it. A source that is read as some nodes is
read as the same nodes, one line further down, between an opening tag on a line of its own and the
end tag that belongs to it (`readTemplate_wrapped`).

Every construct is read with other tags open around as it is without them (`Draft.Takes.nested`):
nothing that opens a tag can end one, and a tag that ends something has what it ends further inside.
So a whole run leads from the body of the wrapping tag to that body with the nodes in it
(`Draft.Reads.leads_nested`), where the end tag closes it.
-/

namespace SheetMarkup

open Grammar
open Token (Kind kinds)

/-! ## Trees further down -/

namespace Node

/-- A tree some lines further down. -/
def shift (n : Nat) : Node → Node
  | list line nodes => .list (line + n) (nodes.attach.map fun child => child.1.shift n)
  | text line value => .text (line + n) value
  | print line value => .print (line + n) value
  | choice line condition thenBody none =>
    .choice (line + n) condition (thenBody.shift n) none
  | choice line condition thenBody (some elseBody) =>
    .choice (line + n) condition (thenBody.shift n) (some (elseBody.shift n))
  | loop line binding iterable body => .loop (line + n) binding iterable (body.shift n)
  | definition line name arguments body => .definition (line + n) name arguments (body.shift n)
  | root line attributes workbook => .root (line + n) attributes (workbook.shift n)
  | element line e parameters none => .element (line + n) e parameters none
  | element line e parameters (some body) =>
    .element (line + n) e parameters (some (body.shift n))
termination_by node => sizeOf node
decreasing_by
  all_goals first
    | exact sizeOf_lt_of_mem_children child.2
    | exact sizeOf_lt_of_mem_children (by simp [children])

@[simp] theorem shift_list (n line : Nat) (nodes : List Node) :
    (list line nodes).shift n = .list (line + n) (nodes.map (shift n)) := by
  rw [shift]
  simp

end Node

/-- A directive for which lines do not matter: further down it declares the same parameters, and its
node has moved down as a whole. -/
structure Directive.Movable (d : Directive) : Prop where
  parameters (token : Token) (n : Nat) : d.parameters (token.shift n) = d.parameters token
  node_shift (n line : Nat) (parameters : OrderedMap Expr) (body : Option Node) :
    (d.node line parameters body).shift n = d.node (line + n) parameters (body.map (Node.shift n))

theorem Element.movable_directive (attributes : OrderedMap String) (e : Element) :
    (e.directive attributes).Movable := by
  refine ⟨fun _ _ => rfl, fun n line parameters body => ?_⟩
  have element : (Node.element line e parameters body).shift n =
      .element (line + n) e parameters (body.map (Node.shift n)) := by
    cases body <;> simp [Node.shift]
  rw [node_directive]
  by_cases workbook : e = .workbook
  · subst workbook
    simp only [node_workbook, Node.shift, element]
  · simp only [node_of_ne_workbook workbook, element]

theorem Dialect.movable_of_find? {attributes : OrderedMap String} {name : String} {d : Directive}
    (found : (spreadsheet attributes).find? name = some d) : d.Movable := by
  obtain ⟨e, -, rfl⟩ := exists_element_of_find? found
  exact e.movable_directive attributes

/-- A body some lines further down. -/
def Body.shift (n : Nat) (body : Body) : Body := ⟨body.line + n, body.nodes.map (Node.shift n)⟩

theorem Body.node_shift (n : Nat) (body : Body) : (body.shift n).node = body.node.shift n := by
  simp [Body.node, Body.shift]

namespace OpenTag

/-- An open tag some lines further down. -/
def shift (n : Nat) : OpenTag → OpenTag
  | thenBody line condition => .thenBody (line + n) condition
  | elseBody line condition first => .elseBody (line + n) condition (first.shift n)
  | loop line binding iterable => .loop (line + n) binding iterable
  | definition line name arguments => .definition (line + n) name arguments
  | directive line d parameters => .directive (line + n) d parameters

theorem ends_shift (n : Nat) (tag : OpenTag) : (tag.shift n).ends = tag.ends := by
  cases tag <;> rfl

theorem node_shift {tag : OpenTag} (movable : tag.Covered Directive.Movable) (n : Nat)
    (body : Node) : (tag.shift n).node (body.shift n) = (tag.node body).shift n := by
  cases tag with
  | directive line d parameters => exact (movable.node_shift n line parameters (some body)).symm
  | _ => simp [OpenTag.node, shift, Node.shift]

end OpenTag

/-! ## Rows further down -/

theorem LongestExpression.map_shift {tokens taken : List Token} {e : Expr}
    (h : LongestExpression tokens taken e) (n : Nat) :
    LongestExpression (tokens.map (Token.shift n)) (taken.map (Token.shift n)) e := by
  obtain ⟨begins, derived, longest⟩ := h
  refine ⟨begins.map _, by rwa [Token.kinds_map_shift], ?_⟩
  rintro more e' ⟨rest, eq⟩ other
  obtain ⟨before, _, rfl, rfl, -⟩ := List.map_eq_append_iff.mp eq.symm
  rw [Token.kinds_map_shift] at other
  simpa using longest before e' (List.prefix_append _ _) other

theorem ExpressionRow.map_shift {row : List Token} {es : List Expr} (h : ExpressionRow row es)
    (n : Nat) : ExpressionRow (row.map (Token.shift n)) es := by
  induction h with
  | nil => exact .nil
  | cons longest _ ih =>
      rw [List.map_append]
      apply ExpressionRow.cons _ ih
      rw [← List.map_append]
      exact longest.map_shift n

theorem Directive.Parameters.map_shift {d : Directive} {name : Token} {row : List Token}
    {parameters : OrderedMap Expr} (h : d.Parameters name row parameters) (movable : d.Movable)
    (n : Nat) : d.Parameters (name.shift n) (row.map (Token.shift n)) parameters := by
  obtain ⟨schema, es, declared, items, bound⟩ := h
  exact ⟨schema, es, by rwa [movable.parameters], items.map_shift n, bound⟩

theorem Opening.map_shift {attributes : OrderedMap String} {line : Nat} {name : String}
    {row : List Token} {tag : OpenTag} (h : Opening (.spreadsheet attributes) line name row tag)
    (n : Nat) :
    Opening (.spreadsheet attributes) (line + n) name (row.map (Token.shift n)) (tag.shift n) := by
  cases h with
  | choice derived => exact .choice (by rwa [Token.kinds_map_shift])
  | loop spelled derived => exact .loop (by rwa [Token.kinds_map_shift]) derived
  | definition spelled => exact .definition (by rwa [Token.kinds_map_shift])
  | directive foreign found body bound =>
      exact .directive foreign found body (bound.map_shift (Dialect.movable_of_find? found) n)

/-- What remains of a stream begins further down if it stands further down, the end included. -/
theorem TokenStream.line_current_shift {init : List Token} {finish n : Nat} {rest : TokenStream}
    (behind : rest.current.line = finish + n) :
    (rest.prepend (init.map (Token.shift n))).current.line =
      (TokenStream.current ⟨init, finish⟩).line + n := by
  cases init with
  | nil => exact behind
  | cons token init => rfl

namespace Draft

theorem map_shift_blockTag (n opened line : Nat) (name : String) (row : List Token)
    (closed : Nat) :
    (blockTag opened line name row closed).map (Token.shift n) =
      blockTag (opened + n) (line + n) name (row.map (Token.shift n)) (closed + n) := by
  simp [blockTag, Token.shift]

/-! ## Drafts inside of others -/

/-- A draft some lines further down, inside of other tags. -/
def nested (draft : Draft) (n : Nat) (base : List (OpenTag × Body)) : Draft :=
  ⟨draft.body.shift n,
    draft.enclosing.map (fun (tag, outer) => (tag.shift n, outer.shift n)) ++ base⟩

variable {attributes : OrderedMap String} {draft draft' : Draft} {n : Nat}
  {base : List (OpenTag × Body)}

theorem node_nested (draft : Draft) (n : Nat) (base : List (OpenTag × Body)) :
    (draft.nested n base).body.node = draft.body.node.shift n := Body.node_shift n draft.body

theorem push_nested (draft : Draft) (node : Node) (n : Nat) (base : List (OpenTag × Body)) :
    (draft.push node).nested n base = (draft.nested n base).push (node.shift n) := rfl

theorem within_nested (draft : Draft) (tag : OpenTag) (line n : Nat)
    (base : List (OpenTag × Body)) :
    (draft.within tag line).nested n base =
      (draft.nested n base).within (tag.shift n) (line + n) := rfl

/-- The tag around the innermost body is further down as well. -/
theorem enclosing_nested {tag : OpenTag} {outer : Body} {enclosing : List (OpenTag × Body)}
    (around : draft.enclosing = (tag, outer) :: enclosing) :
    (draft.nested n base).enclosing =
      (tag.shift n, outer.shift n) :: (Draft.nested ⟨outer, enclosing⟩ n base).enclosing := by
  rw [Draft.nested, around]
  rfl

/-- A construct is read further down, and inside of other tags, as it is on its own. -/
theorem Takes.nested {next : Nat} {taken : List Token}
    (takes : draft.Takes (.spreadsheet attributes) .atEnd next taken draft')
    (movable : draft.Covered Directive.Movable) (n : Nat) (base : List (OpenTag × Body)) :
    (draft.nested n base).Takes (.spreadsheet attributes) .atEnd (next + n)
      (taken.map (Token.shift n)) (draft'.nested n base) := by
  cases takes with
  | text value line =>
      rw [push_nested, Node.shift]
      exact .text value (line + n)
  | @output row e line closed derived =>
      rw [push_nested, Node.shift, List.map_append, List.map_cons]
      apply Takes.output (line + n) (closed + n)
      rwa [Token.kinds_map_shift]
  | opening opened closed _ opening =>
      rw [within_nested, map_shift_blockTag]
      -- the name of an opening tag ends none of the tags around either
      exact .opening _ _ (not_endsAt opening.begins _) (opening.map_shift n)
  | lone opened line closed _ foreign found noBody bound =>
      have moves := Dialect.movable_of_find? found
      rw [push_nested, moves.node_shift, map_shift_blockTag]
      exact .lone _ _ _ (not_endsAt (begins_of_find? found) _) foreign found noBody
        (bound.map_shift moves n)
  | @alternative condition outer enclosing start opened line closed around =>
      rw [within_nested, OpenTag.shift, ← node_nested draft n base, map_shift_blockTag]
      exact .alternative _ _ _ (enclosing_nested around)
  | @close tag outer enclosing name opened line closed around ends other =>
      have tag_movable : tag.Covered Directive.Movable :=
        movable (tag, outer) (by simp [around])
      have closed_eq : Draft.nested ⟨outer.push (tag.node draft.body.node), enclosing⟩ n base =
          ⟨(outer.shift n).push ((tag.shift n).node (draft.nested n base).body.node),
            (Draft.nested ⟨outer, enclosing⟩ n base).enclosing⟩ := by
        rw [node_nested, OpenTag.node_shift tag_movable]
        rfl
      rw [closed_eq, map_shift_blockTag]
      exact .close _ _ _ (enclosing_nested around) (by rwa [OpenTag.ends_shift]) other

/-- What is read of a whole template is read inside of other tags too, as far as the end. -/
theorem Reads.leads_nested {s : TokenStream} {node : Node}
    (reads : Reads (.spreadsheet attributes) draft s node)
    (movable : draft.Covered Directive.Movable)
    (noEnd : ∀ token ∈ s.ahead, token.kind ≠ .eof) {rest : TokenStream}
    (behind : rest.current.line = s.endLine + n) :
    ∃ body : Body, node = body.node ∧
      Leads (.spreadsheet attributes) (draft.nested n base) (s.ahead.map (Token.shift n)) rest
        ⟨body.shift n, base⟩ := by
  induction reads with
  | @done draft s ended around =>
      have none : s.ahead = [] := by
        cases ahead : s.ahead with
        | nil => rfl
        | cons token tail =>
            have current : s.current = token := by simp [TokenStream.current, ahead]
            exact absurd (current ▸ ended) (noEnd token (by simp [ahead]))
      refine ⟨draft.body, rfl, ?_⟩
      rw [none, Draft.nested, around]
      exact .refl _ _ _
  | @more draft draft' s taken node takes _ ih =>
      have later : draft'.Covered Directive.Movable :=
        takes.covered movable fun _ _ found => Dialect.movable_of_find? found
      obtain ⟨body, rfl, leads⟩ := ih later (fun token mem => noEnd token (by
        simp [TokenStream.prepend, mem])) behind
      refine ⟨body, rfl, ?_⟩
      -- the token behind the construct, or else the one behind the whole, has moved down with it
      have first := takes.nested movable n base
      have next : (rest.prepend (s.ahead.map (Token.shift n))).current.line =
          s.current.line + n := TokenStream.line_current_shift behind
      rw [← next] at first
      rw [TokenStream.prepend, List.map_append]
      exact first.leads.trans leads

end Draft

/-! ## Wrapping tags -/

namespace OpenTag

/-- The name of the tag that ends the last body of a tag. -/
def endTag : OpenTag → String
  | thenBody .. => "endif"
  | elseBody .. => "endif"
  | loop .. => "endfor"
  | definition .. => "endmacro"
  | directive _ d _ => d.endTag

/-- The end tag as it is written. -/
def ending (tag : OpenTag) : String := "\x7b% " ++ tag.endTag ++ " %\x7d"

theorem endTag_mem_ends (tag : OpenTag) : tag.endTag ∈ tag.ends := by
  cases tag <;> simp [endTag, ends]

theorem endTag_ne_else (tag : OpenTag) : tag.endTag ≠ "else" := by
  cases tag with
  | directive _ d _ =>
      intro eq
      exact d.else_ne_endTag (List.mem_singleton.mpr eq.symm)
  | _ => simp [endTag]

end OpenTag

theorem Opening.isIdentifier_endTag {attributes : OrderedMap String} {line : Nat} {name : String}
    {row : List Token} {tag : OpenTag}
    (h : Opening (.spreadsheet attributes) line name row tag) : IsIdentifier tag.endTag := by
  cases h with
  | choice => exact isIdentifier_host (by simp [OpenTag.endTag])
  | loop => exact isIdentifier_host (by simp [OpenTag.endTag])
  | definition => exact isIdentifier_host (by simp [OpenTag.endTag])
  | directive _ found _ _ =>
      obtain ⟨e, -, rfl⟩ := Dialect.exists_element_of_find? found
      exact SheetMarkup.isIdentifier_endTag e

/-- The node of a tag is on the line of its name. -/
theorem Opening.line_node {attributes : OrderedMap String} {line : Nat} {name : String}
    {row : List Token} {tag : OpenTag} (h : Opening (.spreadsheet attributes) line name row tag)
    (body : Node) : (tag.node body).line = line := by
  cases h with
  | directive _ found =>
      obtain ⟨e, -, rfl⟩ := Dialect.exists_element_of_find? found
      cases e <;> rfl
  | _ => rfl

/-- A source that is nothing but one opening tag, on one line and without a minus sign at its
end. -/
structure OpeningTag (dialect : Dialect) (source : String) (tag : OpenTag) : Prop where
  oneLine : '\n' ∉ source.toList
  whole : ∃ found, Segmentation source.toList (.tag [] found (.text [])) ∧
    found.closeDash = false
  opens : ∃ opened line name row closed finish,
    tokenize source = .ok (Draft.blockTag opened line name row closed ++ [⟨.eof, finish⟩]) ∧
      Opening dialect line name row tag

/-- The end tag is found behind a text, and its tokens are read. -/
theorem OpenTag.exists_cut_ending {tag : OpenTag} (identifier : IsIdentifier tag.endTag)
    (finish : Nat) :
    ∃ found line closed, found.openDash = false ∧
      (∀ t, PlainText t → cut (t ++ tag.ending.toList) = .tag t found (.text [])) ∧
      found.tokens finish = .ok (Draft.blockTag finish line tag.endTag [] closed) := by
  let ks : List Kind := [.name tag.endTag]
  let found : Tag := ⟨.tag .block, false, inside ks, false⟩
  have balanced : Kind.Balanced ks := Expr.balanced_name identifier
  obtain ⟨tokens, read, spelled⟩ := Tag.tokens_inside balanced.1 .block finish
  obtain ⟨opened, line, row, closed, rfl, nothing⟩ := Draft.exists_blockTag_of_kinds spelled
  cases List.map_eq_nil_iff.mp nothing
  -- the opener of a tag is on the line on which the tag begins
  have start : opened = finish := by
    rcases Tag.tokens_eq_ok read with none | ⟨form, row, trail, last, -, eq⟩
    · cases none
    · exact (Token.mk.inj (List.cons.inj eq).1).2
  subst start
  refine ⟨found, line, closed, rfl, ?_, read⟩
  intro t plain
  have written : tag.ending.toList =
      (Opener.tag .block).spelling ++ (inside ks ++ (TagForm.block.closer.toList ++ [])) := by
    have kind : (Kind.name tag.endTag).spelling = tag.endTag.toList := rfl
    simp [ending, ks, inside, spaced, Lexeme.spellAll, Lexeme.ofRow, Lexeme.ofKind,
      Opener.spelling, TagForm.opener, TagForm.closer, kind]
  rw [written, cut_of_find?_eq_some (plain.find?_append _ _) (Tag.read?_inside balanced _ _),
    cut_of_find?_eq_none rfl]

namespace OpeningTag

variable {attributes : OrderedMap String} {source : String} {tag : OpenTag}

/-- The tokens of an opening tag are all on the first line, where it also is in front of others. -/
theorem exists_tokens (h : OpeningTag (.spreadsheet attributes) source tag) :
    ∃ found closed name row, Segmentation source.toList (.tag [] found (.text [])) ∧
      Trimming.behind found = .lineEnd ∧ Text.lineFeeds found.spelling = 0 ∧
      found.tokens 1 = .ok (Draft.blockTag 1 1 name row closed) ∧
      Opening (.spreadsheet attributes) 1 name row tag := by
  obtain ⟨oneLine, ⟨found, whole, noDash⟩, opened, line, name, row, closed, finish, tokenized,
    opening⟩ := h
  obtain ⟨shape, -⟩ := segmentation_iff.mp whole
  have spelled : found.spelling = source.toList := by
    have all := spelling_cut source.toList
    rw [shape] at all
    simpa [Cut.spelling] using all
  have noFeed : Text.lineFeeds found.spelling = 0 := by
    rw [spelled]
    exact List.count_eq_zero.mpr oneLine
  -- what is tokenized is the tag, with the end behind it
  rw [tokenize, shape] at tokenized
  obtain ⟨inside, ends, read, last, eq⟩ := Cut.tokens_tag_eq_ok_iff.mp tokenized
  rw [Cut.tokens_text_nil] at last
  cases last
  have start : Trimming.nothing.split [] = ([], []) := rfl
  have empty : Text.trimEnd [] = [] := rfl
  simp only [start, empty, ite_self, textToken, if_true, List.nil_append] at eq
  obtain ⟨rfl, -⟩ := List.append_inj' eq rfl
  have read : found.tokens 1 = .ok (Draft.blockTag opened line name row closed) := read
  have onLine : ∀ token ∈ Draft.blockTag opened line name row closed, token.line = 1 := by
    intro token mem
    have within := (Tag.climbs_tokens read).mem (List.mem_map_of_mem mem)
    omega
  have opened_eq : opened = 1 := onLine ⟨.opening .block, opened⟩ (by simp [Draft.blockTag])
  have line_eq : line = 1 := onLine ⟨.name name, line⟩ (by simp [Draft.blockTag])
  subst opened_eq line_eq
  refine ⟨found, closed, name, row, whole, ?_, noFeed, read, opening⟩
  -- the tag is a block tag, as its first token says
  have block : found.opener ≠ .tag .output := by
    intro output
    simp only [Tag.tokens, output] at read
    split at read
    · cases read
    · simp [Draft.blockTag] at read
  simp [Trimming.behind, noDash, block]

end OpeningTag

/-- A source in a line of its own behind an opening tag and before its end tag has the tokens of the
tags, and its own one line further down. -/
theorem tokenize_wrapped {attributes : OrderedMap String} {opening source : String}
    {tag : OpenTag} (wrapper : OpeningTag (.spreadsheet attributes) opening tag)
    {init : List Token} {finish : Nat}
    (tokenized : tokenize source = .ok (init ++ [⟨.eof, finish⟩]))
    (noBrace : source.toList.getLast? ≠ some '{') :
    ∃ closed name row line closed' finish',
      Opening (.spreadsheet attributes) 1 name row tag ∧
      tokenize (opening ++ "\n" ++ source ++ tag.ending) =
        .ok (Draft.blockTag 1 1 name row closed ++ init.map (Token.shift 1) ++
          Draft.blockTag (finish + 1) line tag.endTag [] closed' ++ [⟨.eof, finish'⟩]) := by
  obtain ⟨found, closed, name, row, whole, keeps, noFeed, read, opens⟩ := wrapper.exists_tokens
  obtain ⟨closer, line, closed', noDash, cutEnd, readEnd⟩ :=
    OpenTag.exists_cut_ending opens.isIdentifier_endTag (finish + 1)
  have segments : Segmentation source.toList (cut source.toList) :=
    segmentation_iff.mpr ⟨rfl, ((Cut.shows_iff none 1).mp ⟨_, tokenized, rfl⟩).1⟩
  -- the source is cut behind the line feed as it is on its own, with the end tag behind it
  have cutInside : cut (['\n'] ++ (source.toList ++ tag.ending.toList)) =
      ((cut source.toList).append tag.ending.toList).prepend ['\n'] := by
    rw [cut_prepend (by decide), segments.cut_append]
  have later : (cut source.toList).tokens 2 .nothing =
      .ok (init.map (Token.shift 1) ++ [⟨.eof, finish + 1⟩]) := by
    have moved := Cut.tokens_shift tokenized 1
    rwa [List.map_append] at moved
  have inside := Cut.tokens_append later (cutEnd _ (segments.plainText_last noBrace)) noDash readEnd
  rw [← Cut.tokens_lineFeed, ← cutInside] at inside
  refine ⟨closed, name, row, line, closed', finish + 1 + Text.lineFeeds closer.spelling, opens, ?_⟩
  -- the opening tag comes first, and the line feed behind it is dropped
  have characters : (opening ++ "\n" ++ source ++ tag.ending).toList =
      opening.toList ++ (['\n'] ++ (source.toList ++ tag.ending.toList)) := by
    simp
  rw [tokenize, characters, whole.cut_append]
  have nothing : Trimming.nothing.split [] = ([], []) := rfl
  have empty : Text.trimEnd [] = [] := rfl
  apply Cut.tokens_tag_eq_ok_iff.mpr
  rw [noFeed, keeps]
  refine ⟨_, _, read, inside, ?_⟩
  simp only [nothing, empty, ite_self, textToken, if_true, List.nil_append, List.append_assoc]

/-- Between the tokens of an opening tag and of the end tag that belongs to it, the tokens of a
template are read into the body of the tag. -/
theorem Draft.Reads.wrapped {attributes : OrderedMap String} {name : String} {row : List Token}
    {tag : OpenTag} (opens : Opening (.spreadsheet attributes) 1 name row tag)
    {init : List Token} {finish : Nat} {node : Node}
    (reads : Reads (.spreadsheet attributes) (.start (TokenStream.current ⟨init, finish⟩).line)
      ⟨init, finish⟩ node)
    (noEnd : ∀ token ∈ init, token.kind ≠ .eof) (closed place closed' finish' : Nat) :
    Reads (.spreadsheet attributes) (.start 1)
      ⟨blockTag 1 1 name row closed ++ (init.map (Token.shift 1) ++
        blockTag (finish + 1) place tag.endTag [] closed'), finish'⟩
      (.list 1 [tag.node (node.shift 1)]) := by
  let base : List (OpenTag × Body) := [(tag, ⟨1, []⟩)]
  let ending := blockTag (finish + 1) place tag.endTag [] closed'
  let rest : TokenStream := TokenStream.prepend ending ⟨[], finish'⟩
  have behind : rest.current.line = finish + 1 := rfl
  obtain ⟨body, rfl, leads⟩ := reads.leads_nested (by simp [Covered, start]) noEnd behind
  -- the end tag puts the node of the whole behind nothing else
  have around : (Draft.mk (body.shift 1) base).enclosing = (tag, ⟨1, []⟩) :: [] := rfl
  have close : Draft.Takes (.spreadsheet attributes) .atEnd ⟨body.shift 1, base⟩ finish' ending
      ⟨⟨1, [tag.node (body.shift 1).node]⟩, []⟩ :=
    .close (finish + 1) place closed' around tag.endTag_mem_ends tag.endTag_ne_else
  have done : Reads (.spreadsheet attributes) ⟨⟨1, [tag.node (body.shift 1).node]⟩, []⟩
      ⟨[], finish'⟩ (.list 1 [tag.node (body.shift 1).node]) := .done rfl rfl
  have inside := leads _ (.more close done)
  -- the opening tag leads to an empty body, which is where the run inside begins
  let start := (TokenStream.current ⟨init, finish⟩).line
  have opened : (Draft.start 1).Takes (.spreadsheet attributes) .atEnd (start + 1)
      (blockTag 1 1 name row closed) ((Draft.start start).nested 1 base) :=
    .opening 1 closed (not_endsAt opens.begins _) opens
  have next : (rest.prepend (init.map (Token.shift 1))).current.line = start + 1 :=
    TokenStream.line_current_shift behind
  rw [← next] at opened
  have whole := Reads.more opened inside
  rw [Body.node_shift] at whole
  simpa [TokenStream.prepend, rest, ending] using whole

/-- A source that is read as some nodes means the same inside of a tag: between an opening tag on a
line of its own and the end tag that belongs to it, it is read as the one node of that tag, with
the same nodes one line further down as its body. -/
theorem readTemplate_wrapped {attributes : OrderedMap String} {opening source : String}
    {tag : OpenTag} (wrapper : OpeningTag (.spreadsheet attributes) opening tag)
    {file : String} {line : Nat} {nodes : List Node}
    (parsed : (Dialect.spreadsheet attributes).readTemplate file source =
      .ok ⟨file, .list line nodes⟩)
    (noBrace : source.toList.getLast? ≠ some '{') (file' : String) :
    let body : Node := .list (line + 1) (nodes.map (Node.shift 1))
    (Dialect.spreadsheet attributes).readTemplate file'
        (opening ++ "\n" ++ source ++ tag.ending) = .ok ⟨file', .list 1 [tag.node body]⟩ ∧
      (tag.node body).line = 1 := by
  obtain ⟨-, tokens, tokenized, reads⟩ := readTemplate_eq_ok_iff.mp parsed
  obtain ⟨init, finish, rfl, noEnd⟩ := (tokenize_shape tokenized).1.exists_eq_append_eof
  rw [TokenStream.ofList_append_eof] at reads
  obtain ⟨closed, name, row, place, closed', finish', opens, wrapped⟩ :=
    tokenize_wrapped wrapper tokenized noBrace
  refine ⟨?_, opens.line_node _⟩
  apply readTemplate_eq_ok_iff.mpr
  refine ⟨rfl, _, wrapped, ?_⟩
  have whole := reads.wrapped opens noEnd closed place closed' finish'
  rw [Node.shift_list] at whole
  rw [TokenStream.ofList_append_eof, List.append_assoc]
  exact whole

/-- A condition on two lines inside of a sheet. -/
theorem readTemplate_wrapped_sheet :
    let parameters : OrderedMap Expr :=
      ⟨[("index", .name "i"), ("properties", .list [])], by decide⟩
    let tag : OpenTag := .directive 1 (Element.sheet.directive .empty) parameters
    let condition : Node := .choice 1 (.name "x") (.list 2 [.text 2 "a"]) none
    OpeningTag (.spreadsheet .empty) "\x7b% sheet i %\x7d" tag ∧
      (Dialect.spreadsheet .empty).readTemplate "s"
          "\x7b% if x %\x7d\na\x7b% endif %\x7d\n" = .ok ⟨"s", .list 1 [condition]⟩ ∧
      (Dialect.spreadsheet .empty).readTemplate "t" ("\x7b% sheet i %\x7d" ++ "\n" ++
          "\x7b% if x %\x7d\na\x7b% endif %\x7d\n" ++ tag.ending) =
        .ok ⟨"t", .list 1 [.element 1 .sheet parameters (some (.list 2 [condition.shift 1]))]⟩ := by
  intro parameters tag condition
  have wrapper : OpeningTag (.spreadsheet .empty) "\x7b% sheet i %\x7d" tag := by
    refine ⟨by decide, ⟨⟨.tag .block, false, " sheet i ".toList, false⟩, ?_, rfl⟩,
      1, 1, "sheet", [⟨.name "i", 1⟩], 1, 1, ?_, ?_⟩
    · exact segmentation_iff.mpr ⟨by cbv, trivial⟩
    · cbv
    · have name : Expression (kinds [⟨.name "i", 1⟩]) (.name "i") :=
        .operand (.reference (.name (by decide)))
      have row : ExpressionRow ([⟨.name "i", 1⟩] ++ []) [.name "i"] :=
        .cons ⟨List.prefix_rfl, name, fun _ _ begins _ => begins.length_le⟩ .nil
      apply Opening.directive (by decide) rfl rfl
      refine ⟨⟨Element.sheet.parameters, by decide⟩, [.name "i"], rfl, row, ?_⟩
      exact Schema.bind_eq_ok_iff.mpr rfl
  have read : (Dialect.spreadsheet .empty).readTemplate "s"
      "\x7b% if x %\x7d\na\x7b% endif %\x7d\n" = .ok ⟨"s", .list 1 [condition]⟩ := by
    cbv
  exact ⟨wrapper, read, (readTemplate_wrapped wrapper read (by decide) "t").1⟩

end SheetMarkup
