import Mathlib
import SheetMarkup.Node.Outline
import SheetMarkup.Proofs.Source.Shape
import SheetMarkup.Proofs.Spreadsheet
import SheetMarkup.Proofs.Template.Constructs

/-!
# The skeleton of a template

Reading a template loses, doubles and reorders nothing of it. The skeleton of a tree is what can be
seen of the tree in its source: the texts, the printed values and the names of the tags that begin,
part and end its nodes, in their order, with the lines of the nodes. The landmarks of a token list
are the texts, the openers of output tags and the names of block tags. A draft that is being read
has a skeleton too, and each construct adds one joint to it and takes one landmark from the tokens
(`Draft.Takes.joined`); so the skeleton of a template fits the landmarks of its tokens
(`readTemplate_skeleton`).
-/

namespace SheetMarkup

open Token (kinds)

/-- What is seen of a node in its source. -/
inductive Mark where
  | text (value : String)
  | output
  | tag (name : String)
deriving DecidableEq, Repr

/-- A mark in a tree: the lines of the nodes that begin with it, and of the lists of nodes that
begin behind it. -/
structure Joint where
  mark : Mark
  nodes : List Nat
  lists : List Nat
deriving DecidableEq, Repr

/-- A mark in a token list: the line of its token, and the line of the token behind its tag. -/
structure Landmark where
  mark : Mark
  line : Nat
  behind : Option Nat
deriving DecidableEq, Repr

namespace Joint

/-- The lines of a joint in the order of its nodes. -/
def lines (joint : Joint) : List Nat := joint.nodes ++ joint.lists

/-- A joint fits a landmark with the same mark if its nodes are on the line of the landmark and its
lists on the line of what stands behind the landmark's tag. -/
def Fits (joint : Joint) (landmark : Landmark) : Prop :=
  joint.mark = landmark.mark ∧ (∀ line ∈ joint.nodes, line = landmark.line) ∧
    ∀ line ∈ joint.lists, landmark.behind = some line

theorem map_mark_eq {joints : List Joint} {landmarks : List Landmark}
    (h : List.Forall₂ Fits joints landmarks) :
    joints.map mark = landmarks.map Landmark.mark := by
  induction h with
  | nil => rfl
  | cons fits _ ih => rw [List.map_cons, List.map_cons, fits.1, ih]

/-- The skeleton of a node around another one, of which nothing is seen but the line. -/
def under (line : Nat) : List Joint → List Joint
  | [] => []
  | first :: more => { first with nodes := line :: first.nodes } :: more

end Joint

namespace Node

/-- The marks of a tree in the order of its source. -/
def skeleton : Node → List Joint
  | list _ nodes => nodes.attach.flatMap fun child => child.1.skeleton
  | text line value => [⟨.text value, [line], []⟩]
  | print line _ => [⟨.output, [line], []⟩]
  | choice line _ thenBody none =>
    ⟨.tag "if", [line], [thenBody.line]⟩ :: thenBody.skeleton ++ [⟨.tag "endif", [], []⟩]
  | choice line _ thenBody (some elseBody) =>
    ⟨.tag "if", [line], [thenBody.line]⟩ :: thenBody.skeleton ++
      ⟨.tag "else", [], [elseBody.line]⟩ :: elseBody.skeleton ++ [⟨.tag "endif", [], []⟩]
  | loop line _ _ body =>
    ⟨.tag "for", [line], [body.line]⟩ :: body.skeleton ++ [⟨.tag "endfor", [], []⟩]
  | definition line _ _ body =>
    ⟨.tag "macro", [line], [body.line]⟩ :: body.skeleton ++ [⟨.tag "endmacro", [], []⟩]
  | root line _ workbook => Joint.under line workbook.skeleton
  | element line e _ body =>
    ⟨.tag e.tag, [line], (body.map Node.line).toList⟩ ::
      if e = .drawing then []
      else (match body with | none => [] | some body => body.skeleton) ++
        [⟨.tag ("end" ++ e.tag), [], []⟩]
termination_by node => sizeOf node
decreasing_by
  all_goals first
    | exact sizeOf_lt_of_mem_children child.2
    | exact sizeOf_lt_of_mem_children (by simp [children])

@[simp] theorem skeleton_list (line : Nat) (nodes : List Node) :
    (list line nodes).skeleton = nodes.flatMap skeleton := by
  rw [skeleton]
  simp [List.flatMap_def]

/-- The lines of a node and of all nodes below it, from above to below. -/
def lines (node : Node) : List Nat := (node.levels 0).map fun entry => entry.2.line

theorem map_line_levels (node : Node) (depth : Nat) :
    ((node.levels depth).map fun entry => entry.2.line) = node.lines := by
  rw [lines]
  generalize 0 = other
  induction node using inductionOn generalizing depth other with
  | step node ih =>
      rw [levels_eq, levels_eq other, List.map_cons, List.map_cons, List.map_flatMap,
        List.map_flatMap]
      congr 1
      exact List.flatMap_congr fun child mem => ih child mem _ _

theorem lines_eq (node : Node) : node.lines = node.line :: node.children.flatMap lines := by
  rw [lines, levels_eq, List.map_cons, List.map_flatMap]
  simp only [map_line_levels]

/-- The lines of a node are those of its skeleton. -/
def Tidy (node : Node) : Prop := node.lines = node.skeleton.flatMap Joint.lines

/-- The lines of a list are its own and those of its skeleton. -/
def TidyBody (node : Node) : Prop :=
  node.lines = node.line :: node.skeleton.flatMap Joint.lines

theorem tidyBody_list {nodes : List Node} (line : Nat) (h : ∀ node ∈ nodes, node.Tidy) :
    (list line nodes).TidyBody := by
  have each : nodes.flatMap lines = nodes.flatMap fun node => node.skeleton.flatMap Joint.lines :=
    List.flatMap_congr h
  rw [TidyBody, lines_eq, skeleton_list, List.flatMap_assoc]
  exact congrArg (line :: ·) each

theorem tidy_text (line : Nat) (value : String) : (text line value).Tidy := by
  rw [Tidy, lines_eq, skeleton]
  rfl

theorem tidy_print (line : Nat) (value : Expr) : (print line value).Tidy := by
  rw [Tidy, lines_eq, skeleton]
  rfl

end Node

/-! ## Skeletons of drafts -/

namespace OpenTag

/-- The marks of a tag that is open, up to its body, which begins on the line `content`. -/
def skeleton (content : Nat) : OpenTag → List Joint
  | thenBody line _ => [⟨.tag "if", [line], [content]⟩]
  | elseBody line _ first =>
    ⟨.tag "if", [line], [first.line]⟩ :: first.skeleton ++ [⟨.tag "else", [], [content]⟩]
  | loop line _ _ => [⟨.tag "for", [line], [content]⟩]
  | definition line _ _ => [⟨.tag "macro", [line], [content]⟩]
  | directive line d _ =>
    -- around a workbook there is a document root on the same line
    [⟨.tag d.tag, if d.tag = Element.workbook.tag then [line, line] else [line], [content]⟩]

/-- What holds of the open tags of a spreadsheet: a directive is that of an element with a body, and
the body before `else` is tidy. -/
def Sound (attributes : OrderedMap String) : OpenTag → Prop
  | elseBody _ _ first => first.TidyBody
  | directive _ d _ => ∃ e, e ≠ Element.drawing ∧ d = e.directive attributes
  | _ => True

variable {attributes : OrderedMap String} {tag : OpenTag} {name : String}

/-- The end tag is the last mark of a node. -/
theorem skeleton_node (sound : tag.Sound attributes) (ends : name ∈ tag.ends)
    (other : name ≠ "else") (body : Node) :
    (tag.node body).skeleton =
      tag.skeleton body.line ++ body.skeleton ++ [⟨.tag name, [], []⟩] := by
  cases tag with
  | thenBody line condition =>
      have name_eq : name = "endif" := by simpa [OpenTag.ends, other] using ends
      simp [OpenTag.node, Node.skeleton, skeleton, name_eq]
  | elseBody line condition first =>
      have name_eq : name = "endif" := by simpa [OpenTag.ends] using ends
      simp [OpenTag.node, Node.skeleton, skeleton, name_eq]
  | loop line binding iterable =>
      have name_eq : name = "endfor" := by simpa [OpenTag.ends] using ends
      simp [OpenTag.node, Node.skeleton, skeleton, name_eq]
  | definition line name' arguments =>
      have name_eq : name = "endmacro" := by simpa [OpenTag.ends] using ends
      simp [OpenTag.node, Node.skeleton, skeleton, name_eq]
  | directive line d parameters =>
      obtain ⟨e, body_e, rfl⟩ := sound
      have name_eq : name = "end" ++ e.tag := List.mem_singleton.mp ends
      have tag : (e.directive attributes).tag = e.tag := rfl
      by_cases workbook : e = .workbook
      · subst workbook
        simp [OpenTag.node, Element.node_directive, Element.node_workbook, Node.skeleton, skeleton,
          name_eq, tag, Joint.under]
      · have other : e.tag ≠ Element.workbook.tag :=
          fun same => workbook (Element.tag_injective same)
        simp [OpenTag.node, Element.node_directive, Element.node_of_ne_workbook, workbook,
          Node.skeleton, skeleton, name_eq, tag, other, body_e]

/-- The lines of a node are those of its skeleton if this is so of its bodies. -/
theorem tidy_node (sound : tag.Sound attributes) {body : Node} (tidy : body.TidyBody) :
    (tag.node body).Tidy := by
  cases tag with
  | elseBody line condition first =>
      have first_tidy : first.TidyBody := sound
      rw [Node.Tidy, Node.lines_eq]
      simp [OpenTag.node, Node.skeleton, Node.children, Node.line, Joint.lines,
        show body.lines = _ from tidy, show first.lines = _ from first_tidy]
  | directive line d parameters =>
      obtain ⟨e, body_e, rfl⟩ := sound
      rw [Node.Tidy, Node.lines_eq]
      by_cases workbook : e = .workbook
      · subst workbook
        simp [OpenTag.node, Element.node_directive, Element.node_workbook, Node.skeleton,
          Node.children, Node.line, Joint.lines, Joint.under, Node.lines_eq (.element ..),
          show body.lines = _ from tidy]
      · simp [OpenTag.node, Element.node_directive, Element.node_of_ne_workbook, workbook,
          Node.skeleton, Node.children, Node.line, Joint.lines, body_e,
          show body.lines = _ from tidy]
  | _ =>
      rw [Node.Tidy, Node.lines_eq]
      simp [OpenTag.node, Node.skeleton, Node.children, Node.line, Joint.lines,
        show body.lines = _ from tidy]

end OpenTag

namespace Draft

/-- The marks of a body and of what is open around it. -/
def unfinished (body : Body) : List (OpenTag × Body) → List Joint
  | [] => body.node.skeleton
  | (tag, outer) :: enclosing =>
    unfinished outer enclosing ++ tag.skeleton body.line ++ body.node.skeleton

/-- The marks of what has been read. -/
def skeleton (draft : Draft) : List Joint := unfinished draft.body draft.enclosing

/-- What holds of the drafts of a spreadsheet: the nodes are tidy and the open tags are sound. -/
structure Sound (attributes : OrderedMap String) (draft : Draft) : Prop where
  nodes : ∀ node ∈ draft.body.nodes, node.Tidy
  enclosing : ∀ entry ∈ draft.enclosing,
    entry.1.Sound attributes ∧ ∀ node ∈ entry.2.nodes, node.Tidy

variable {attributes : OrderedMap String} {draft : Draft}

theorem skeleton_node_push (body : Body) (node : Node) :
    (body.push node).node.skeleton = body.node.skeleton ++ node.skeleton := by
  simp [Body.push, Body.node]

theorem unfinished_push (body : Body) (enclosing : List (OpenTag × Body)) (node : Node) :
    unfinished (body.push node) enclosing = unfinished body enclosing ++ node.skeleton := by
  cases enclosing with
  | nil => exact skeleton_node_push body node
  | cons entry enclosing =>
      rw [unfinished, unfinished, skeleton_node_push, ← List.append_assoc]
      rfl

theorem skeleton_push (draft : Draft) (node : Node) :
    (draft.push node).skeleton = draft.skeleton ++ node.skeleton :=
  unfinished_push draft.body draft.enclosing node

theorem skeleton_within (draft : Draft) (tag : OpenTag) (line : Nat) :
    (draft.within tag line).skeleton = draft.skeleton ++ tag.skeleton line := by
  have empty : (Body.node ⟨line, []⟩).skeleton = [] := Node.skeleton_list line []
  rw [skeleton, within, unfinished, empty, List.append_nil]
  rfl

theorem skeleton_eq {tag : OpenTag} {outer : Body} {enclosing : List (OpenTag × Body)}
    (around : draft.enclosing = (tag, outer) :: enclosing) :
    draft.skeleton = unfinished outer enclosing ++ tag.skeleton draft.body.line ++
      draft.body.node.skeleton := by
  rw [skeleton, around, unfinished]

theorem Sound.tidyBody (sound : draft.Sound attributes) : draft.body.node.TidyBody :=
  Node.tidyBody_list _ fun node mem => sound.nodes node (List.mem_reverse.mp mem)

theorem Sound.push (sound : draft.Sound attributes) {node : Node} (tidy : node.Tidy) :
    (draft.push node).Sound attributes := by
  refine ⟨?_, sound.enclosing⟩
  intro other mem
  rcases List.mem_cons.mp mem with rfl | mem
  · exact tidy
  · exact sound.nodes other mem

theorem Sound.within (sound : draft.Sound attributes) {tag : OpenTag}
    (tag_sound : tag.Sound attributes) (line : Nat) :
    (draft.within tag line).Sound attributes := by
  refine ⟨by simp [Draft.within], ?_⟩
  intro entry mem
  rcases List.mem_cons.mp mem with rfl | mem
  · exact ⟨tag_sound, sound.nodes⟩
  · exact sound.enclosing entry mem

/-- Around the innermost body there are sound drafts as well. -/
theorem Sound.outer (sound : draft.Sound attributes) {tag : OpenTag} {outer : Body}
    {enclosing : List (OpenTag × Body)} (around : draft.enclosing = (tag, outer) :: enclosing) :
    tag.Sound attributes ∧ Draft.Sound attributes ⟨outer, enclosing⟩ := by
  have all := sound.enclosing
  rw [around] at all
  obtain ⟨tag_sound, nodes⟩ := all (tag, outer) (by simp)
  exact ⟨tag_sound, nodes, fun entry mem => all entry (by simp [mem])⟩

/-- The line on which the outermost body starts. -/
def startLine (body : Body) : List (OpenTag × Body) → Nat
  | [] => body.line
  | (_, outer) :: enclosing => startLine outer enclosing

theorem startLine_push (body : Body) (enclosing : List (OpenTag × Body)) (node : Node) :
    startLine (body.push node) enclosing = startLine body enclosing := by
  cases enclosing <;> rfl

end Draft

/-! ## Landmarks of tokens -/

namespace Token

/-- The line of the token behind the first closer. -/
def lineBehindCloser : List Token → Option Nat
  | [] => none
  | ⟨.closing _, _⟩ :: rest => rest.head?.map line
  | _ :: rest => lineBehindCloser rest

/-- The texts, the openers of output tags and the names of block tags. -/
def landmarks : List Token → List Landmark
  | [] => []
  | ⟨.text value, line⟩ :: rest => ⟨.text value, line, none⟩ :: landmarks rest
  | ⟨.opening .output, line⟩ :: rest => ⟨.output, line, none⟩ :: landmarks rest
  | ⟨.opening .block, _⟩ :: ⟨.name name, line⟩ :: rest =>
    ⟨.tag name, line, lineBehindCloser rest⟩ :: landmarks rest
  | _ :: rest => landmarks rest

/-- Nothing is seen of the inside of a tag. -/
theorem landmarks_closing {row : List Token} (inner : ∀ token ∈ row, token.kind.IsInner)
    (form : TagForm) (line : Nat) (rest : List Token) :
    landmarks (row ++ ⟨.closing form, line⟩ :: rest) = landmarks rest := by
  refine scan_closing ?_ inner form line rest
  rintro ⟨kind, start⟩ rest inside
  cases kind with
  | text | opening | eof => simp [Kind.IsInner] at inside
  | _ => rw [landmarks] <;> simp

theorem lineBehindCloser_closing {row : List Token} (inner : ∀ token ∈ row, token.kind.IsInner)
    (form : TagForm) (line : Nat) (rest : List Token) :
    lineBehindCloser (row ++ ⟨.closing form, line⟩ :: rest) = rest.head?.map Token.line := by
  induction row with
  | nil => rfl
  | cons token row ih =>
      obtain ⟨kind, start⟩ := token
      have inside : kind.IsInner := inner ⟨kind, start⟩ (by simp)
      have others := ih fun token mem => inner token (by simp [mem])
      cases kind with
      | text | opening | closing | eof => exact absurd inside id
      | _ =>
          rw [List.cons_append, lineBehindCloser, others]
          simp

theorem landmarks_output {row : List Token} (inner : ∀ token ∈ row, token.kind.IsInner)
    (line closed : Nat) (rest : List Token) :
    landmarks ((⟨.opening .output, line⟩ :: row ++ [⟨.closing .output, closed⟩]) ++ rest) =
      ⟨.output, line, none⟩ :: landmarks rest := by
  rw [List.append_assoc, List.cons_append, landmarks]
  exact congrArg _ (landmarks_closing inner .output closed rest)

theorem landmarks_blockTag {row : List Token} (inner : ∀ token ∈ row, token.kind.IsInner)
    (opened line closed : Nat) (name : String) (rest : List Token) :
    landmarks (Draft.blockTag opened line name row closed ++ rest) =
      ⟨.tag name, line, rest.head?.map Token.line⟩ :: landmarks rest := by
  rw [Draft.blockTag, List.append_assoc, List.cons_append, List.cons_append, landmarks]
  rw [List.singleton_append, landmarks_closing inner, lineBehindCloser_closing inner]

end Token

namespace Opening

variable {attributes : OrderedMap String} {line : Nat} {name : String} {row : List Token}
  {tag : OpenTag}

/-- A tag that is opened in a spreadsheet is sound. -/
theorem sound (h : Opening (.spreadsheet attributes) line name row tag) :
    tag.Sound attributes := by
  cases h with
  | directive _ found body _ =>
      obtain ⟨e, -, rfl⟩ := Dialect.exists_element_of_find? found
      exact ⟨e, by simpa [Element.directive] using body, rfl⟩
  | _ => exact trivial

/-- A tag that is opened shows its name, and its nodes are on the line of the name. -/
theorem skeleton (h : Opening (.spreadsheet attributes) line name row tag) (next : Nat) :
    ∃ nodes, tag.skeleton next = [⟨.tag name, nodes, [next]⟩] ∧ ∀ n ∈ nodes, n = line := by
  cases h with
  | directive _ found body _ =>
      obtain ⟨e, rfl, rfl⟩ := Dialect.exists_element_of_find? found
      refine ⟨_, rfl, ?_⟩
      split <;> simp
  | _ => exact ⟨[line], rfl, by simp⟩

end Opening

namespace Draft

variable {attributes : OrderedMap String} {draft draft' : Draft}

/-- The node of a directive without a body, which only a drawing is, is tidy and shows its tag. -/
theorem lone_node {d : Directive} {name : String} (line : Nat) (parameters : OrderedMap Expr)
    (found : (Dialect.spreadsheet attributes).find? name = some d) (noBody : ¬ d.hasBody) :
    (d.node line parameters none).Tidy ∧
      (d.node line parameters none).skeleton = [⟨.tag name, [line], []⟩] := by
  obtain ⟨e, rfl, rfl⟩ := Dialect.exists_element_of_find? found
  have drawing : e = .drawing := by simpa [Element.directive] using noBody
  subst drawing
  have node : (Element.drawing.directive attributes).node line parameters none =
      .element line .drawing parameters none := rfl
  have shown : (Node.element line .drawing parameters none).skeleton =
      [⟨.tag "drawing", [line], []⟩] := by simp [Node.skeleton, Element.tag]
  rw [node, Node.Tidy, Node.lines_eq, shown]
  exact ⟨rfl, rfl⟩

/-- A construct leads from sound drafts to sound ones. -/
theorem Takes.sound {next : Nat} {taken : List Token}
    (takes : draft.Takes (.spreadsheet attributes) .atEnd next taken draft')
    (sound : draft.Sound attributes) : draft'.Sound attributes := by
  cases takes with
  | text value line => exact sound.push (Node.tidy_text line value)
  | output line => exact sound.push (Node.tidy_print line _)
  | opening _ _ _ opening => exact sound.within opening.sound next
  | lone _ line _ _ _ found noBody => exact sound.push (lone_node line _ found noBody).1
  | @alternative condition _ _ start _ _ _ around =>
      -- the first body stays part of what is open, the second one begins empty
      have tag_sound : (OpenTag.elseBody start condition draft.body.node).Sound attributes :=
        sound.tidyBody
      exact (sound.outer around).2.within tag_sound next
  | close _ _ _ around =>
      obtain ⟨tag_sound, outer_sound⟩ := sound.outer around
      exact outer_sound.push (OpenTag.tidy_node tag_sound sound.tidyBody)

/-- The skeleton of a draft has grown by one joint, and the joint fits the one landmark of the
tokens that stand in front of the others. -/
def Joined (draft draft' : Draft) (next : Nat) (taken rest : List Token) : Prop :=
  ∃ joint landmark, draft'.skeleton = draft.skeleton ++ [joint] ∧
    Token.landmarks (taken ++ rest) = landmark :: Token.landmarks rest ∧
    joint.Fits landmark ∧ landmark.line ∈ taken.map Token.line ∧
    ∀ line ∈ joint.lists, line = next

/-- The landmark of a block tag is its name. -/
theorem joined_blockTag {next : Nat} {row rest : List Token} {name : String} {line : Nat}
    (nodes lists : List Nat) (inner : ∀ token ∈ row, token.kind.IsInner)
    (behind : rest.head?.map Token.line = some next)
    (grown : draft'.skeleton = draft.skeleton ++ [⟨.tag name, nodes, lists⟩])
    (on_line : ∀ n ∈ nodes, n = line) (on_next : ∀ n ∈ lists, n = next) (opened closed : Nat) :
    draft.Joined draft' next (blockTag opened line name row closed) rest := by
  refine ⟨_, ⟨.tag name, line, some next⟩, grown, ?_, ⟨rfl, on_line, ?_⟩, by simp [blockTag],
    on_next⟩
  · rw [Token.landmarks_blockTag inner, behind]
  · intro n mem
    rw [on_next n mem]

/-- A construct adds one joint to the skeleton of a draft and takes one landmark from the tokens,
and the one fits the other. -/
theorem Takes.joined {next : Nat} {taken rest : List Token}
    (takes : draft.Takes (.spreadsheet attributes) .atEnd next taken draft')
    (sound : draft.Sound attributes) (behind : rest.head?.map Token.line = some next) :
    draft.Joined draft' next taken rest := by
  cases takes with
  | text value line =>
      refine ⟨⟨.text value, [line], []⟩, ⟨.text value, line, none⟩, ?_, ?_, by simp [Joint.Fits],
        by simp, by simp⟩
      · rw [skeleton_push, Node.skeleton]
      · rw [List.singleton_append, Token.landmarks]
  | @output row e line closed derived =>
      refine ⟨⟨.output, [line], []⟩, ⟨.output, line, none⟩, ?_,
        Token.landmarks_output derived.isInner line closed rest, by simp [Joint.Fits], by simp,
        by simp⟩
      rw [skeleton_push, Node.skeleton]
  | opening _ _ _ opening =>
      obtain ⟨nodes, shown, on_line⟩ := opening.skeleton next
      refine joined_blockTag nodes [next] opening.isInner behind ?_ on_line (by simp) _ _
      rw [skeleton_within, shown]
  | lone _ line _ _ _ found noBody bound =>
      refine joined_blockTag [line] [] bound.isInner behind ?_ (by simp) (by simp) _ _
      rw [skeleton_push, (lone_node line _ found noBody).2]
  | alternative _ _ _ around =>
      refine joined_blockTag [] [next] (by simp) behind ?_ (by simp) (by simp) _ _
      rw [skeleton_within, skeleton_eq around]
      simp [OpenTag.skeleton, Draft.skeleton, Body.node, Node.line]
  | close _ _ _ around ends other =>
      -- the end tag closes the innermost body, whose node goes into the one outside
      refine joined_blockTag [] [] (by simp) behind ?_ (by simp) (by simp) _ _
      rw [Draft.skeleton, unfinished_push, OpenTag.skeleton_node (sound.outer around).1 ends other,
        skeleton_eq around]
      simp [Body.node, Node.line]

theorem Takes.startLine_eq {dialect : Dialect} {bound : Bound} {next : Nat} {taken : List Token}
    (takes : draft.Takes dialect bound next taken draft') :
    startLine draft'.body draft'.enclosing = startLine draft.body draft.enclosing := by
  cases takes with
  | text | output | lone => exact startLine_push _ _ _
  | opening => rfl
  | alternative _ _ _ around => rw [around]; rfl
  | close _ _ _ around => rw [around]; exact startLine_push _ _ _

/-- The marks and lines that a run adds to the skeleton of a draft are those of its tokens. -/
theorem Reads.skeleton {s : TokenStream} {node : Node} {high : Nat}
    (reads : Reads (.spreadsheet attributes) draft s node) (sound : draft.Sound attributes)
    (noEnd : ∀ token ∈ s.ahead, token.kind ≠ .eof)
    (climbs : Climbs s.current.line high (s.remaining.map Token.line)) :
    node.TidyBody ∧ node.line = startLine draft.body draft.enclosing ∧
      ∃ joints, node.skeleton = draft.skeleton ++ joints ∧
        List.Forall₂ Joint.Fits joints (Token.landmarks s.remaining) ∧
        Climbs s.current.line high (joints.flatMap Joint.lines) := by
  induction reads with
  | @done draft s ended around =>
      refine ⟨sound.tidyBody, ?_, [], ?_, ?_, .nil climbs.le⟩
      · rw [around]
        rfl
      · rw [Draft.skeleton, around, unfinished, List.append_nil]
      · obtain ⟨ahead, endLine⟩ := s
        cases ahead with
        | nil => simp [TokenStream.remaining, TokenStream.eof, Token.landmarks]
        | cons token ahead => exact absurd ended (noEnd token (by simp))
  | @more draft draft' s taken node takes _ ih =>
      obtain ⟨tail, ahead⟩ := s.exists_remaining_eq
      have behind : s.remaining.head?.map Token.line = some s.current.line := by
        rw [s.head?_remaining]
        rfl
      obtain ⟨joint, landmark, grown, seen, fits, place, lists⟩ := takes.joined sound behind
      -- the lines of the construct come before the line of what follows, the others behind it
      rw [TokenStream.remaining_prepend, List.map_append, ahead, List.map_cons] at climbs
      obtain ⟨before, after⟩ := climbs.split
      rw [← List.map_cons, ← ahead] at after
      obtain ⟨tidy, start, joints, rest, others, later⟩ :=
        ih (takes.sound sound)
          (fun token mem => noEnd token (by simp [TokenStream.prepend, mem])) after
      refine ⟨tidy, by rw [start, takes.startLine_eq], joint :: joints, ?_, ?_, ?_⟩
      · rw [rest, grown, List.append_assoc, List.singleton_append]
      · rw [TokenStream.remaining_prepend, seen]
        exact .cons fits others
      · obtain ⟨low, high'⟩ := before.mem place
        rw [List.flatMap_cons, Joint.lines]
        have nodes := (Climbs.of_forall_eq fits.2.1).mono_left low
        exact ((nodes.mono_right high').append (.of_forall_eq lists)).append later

end Draft

/-- A template that is read has the marks of its tokens in their order: its texts, printed values
and tags are the texts, the openers of output tags and the names of block tags. Each node is on the
line of its token, and each list of nodes is on the line of the token behind its tag, or of the
first one. So the lines of the nodes, from above to below, never go down. -/
theorem readTemplate_skeleton {attributes : OrderedMap String} {file source : String}
    {template : Template}
    (h : (Dialect.spreadsheet attributes).readTemplate file source = .ok template) :
    ∃ tokens, tokenize source = .ok tokens ∧
      template.body.skeleton.map Joint.mark = (Token.landmarks tokens).map Landmark.mark ∧
      List.Forall₂ Joint.Fits template.body.skeleton (Token.landmarks tokens) ∧
      tokens.head?.map Token.line = some template.body.line ∧
      template.body.lines = template.body.line :: template.body.skeleton.flatMap Joint.lines ∧
      template.body.lines.Pairwise (· ≤ ·) := by
  obtain ⟨-, tokens, tokenized, reads⟩ := readTemplate_eq_ok_iff.mp h
  obtain ⟨segments, high, climbs⟩ := tokenize_shape tokenized
  obtain ⟨init, line, rfl, noEnd⟩ := segments.exists_eq_append_eof
  rw [TokenStream.ofList_append_eof] at reads
  have sound : (Draft.start (TokenStream.current ⟨init, line⟩).line).Sound attributes :=
    ⟨by simp [Draft.start], by simp [Draft.start]⟩
  -- the climb starts on the line of the first token, as the template does
  obtain ⟨tail, ahead⟩ := TokenStream.exists_remaining_eq ⟨init, line⟩
  have all : init ++ [⟨.eof, line⟩] = TokenStream.remaining ⟨init, line⟩ := rfl
  have climbs' : Climbs (TokenStream.current ⟨init, line⟩).line high
      ((TokenStream.remaining ⟨init, line⟩).map Token.line) := by
    rw [all, ahead, List.map_cons] at climbs
    rw [ahead, List.map_cons]
    cases climbs with
    | cons _ rest => exact .cons (Nat.le_refl _) rest
  obtain ⟨tidy, start, joints, shown, fits, lines⟩ := reads.skeleton sound noEnd climbs'
  -- nothing has been read before the first token, so all joints come from the run
  have nothing : (Draft.start (TokenStream.current ⟨init, line⟩).line).skeleton = [] :=
    Node.skeleton_list _ []
  rw [nothing, List.nil_append] at shown
  subst shown
  refine ⟨_, tokenized, ?_, fits, ?_, tidy, ?_⟩
  · exact Joint.map_mark_eq fits
  · rw [start, all, ahead]
    rfl
  · rw [show template.body.lines = _ from tidy, start]
    exact (Climbs.cons (Nat.le_refl _) lines).pairwise

/-- A text, and a condition with a printed value in one body and a text in the other. -/
theorem readTemplate_skeleton_condition :
    ∃ template tokens,
      (Dialect.spreadsheet .empty).readTemplate "a"
          "x\x7b% if a %\x7d\n\x7b\x7b b \x7d\x7d\x7b% else %\x7dc\x7b% endif %\x7d" =
        .ok template ∧
      template.body.skeleton.map Joint.mark =
        [.text "x", .tag "if", .output, .tag "else", .text "c", .tag "endif"] ∧
      List.Forall₂ Joint.Fits template.body.skeleton (Token.landmarks tokens) := by
  have read : (Dialect.spreadsheet .empty).readTemplate "a"
      "x\x7b% if a %\x7d\n\x7b\x7b b \x7d\x7d\x7b% else %\x7dc\x7b% endif %\x7d" =
        .ok ⟨"a", .list 1 [.text 1 "x", .choice 1 (.name "a") (.list 2 [.print 2 (.name "b")])
          (some (.list 2 [.text 2 "c"]))]⟩ := by
    cbv
  obtain ⟨tokens, -, -, fits, -⟩ := readTemplate_skeleton read
  exact ⟨_, tokens, read, by cbv, fits⟩

end SheetMarkup
