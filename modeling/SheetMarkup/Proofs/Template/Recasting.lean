import Mathlib
import SheetMarkup.Proofs.Source.Evaluation
import SheetMarkup.Proofs.Template.Translation

/-!
# Recasting directives

All that reading a template asks of a dialect is which directive stands for the name of a block tag,
and all that it does with a directive is to read its parameters, to look for its end tag and to make
its node. So if the directives of a dialect are exchanged for others that only make other nodes, the
same readings succeed, with exchanged nodes, and the others fail with the same reports
(`Dialect.readTemplate_recast`). It is enough that the exchange has been made for the names that
block tags of the source begin with.

A construct is read in a recast draft as it is in the draft itself (`Draft.step_recast`), and so is
everything up to the end of a body (`Draft.read_recast`).
-/

namespace SheetMarkup

open Reading

/-- An exchange of nodes that leaves all nodes of the host language as they are, and one of
directives, whose tags, bodies and parameters stay. For the directives that it covers the one goes
with the other. -/
structure Recasting where
  node : Node → Node
  directive : Directive → Directive
  covers : Directive → Prop
  list (line : Nat) (nodes : List Node) : node (.list line nodes) = .list line (nodes.map node)
  text (line : Nat) (value : String) : node (.text line value) = .text line value
  print (line : Nat) (value : Expr) : node (.print line value) = .print line value
  choice (line : Nat) (condition : Expr) (thenBody : Node) (elseBody : Option Node) :
    node (.choice line condition thenBody elseBody) =
      .choice line condition (node thenBody) (elseBody.map node)
  loop (line : Nat) (binding : String) (iterable : Expr) (body : Node) :
    node (.loop line binding iterable body) = .loop line binding iterable (node body)
  definition (line : Nat) (name : String) (arguments : List String) (body : Node) :
    node (.definition line name arguments body) = .definition line name arguments (node body)
  tag (d : Directive) : (directive d).tag = d.tag
  hasBody (d : Directive) : (directive d).hasBody = d.hasBody
  parameters (d : Directive) : (directive d).parameters = d.parameters
  make (d : Directive) (line : Nat) (parameters : OrderedMap Expr) (body : Option Node) : covers d →
    node (d.node line parameters body) = (directive d).node line parameters (body.map node)

/-- The exchange of everything for itself. -/
def Recasting.refl : Recasting where
  node := id
  directive := id
  covers _ := True
  list _ _ := by simp
  text _ _ := rfl
  print _ _ := rfl
  choice _ _ _ _ := by simp
  loop _ _ _ _ := rfl
  definition _ _ _ _ := rfl
  tag _ := rfl
  hasBody _ := rfl
  parameters _ := rfl
  make _ _ _ _ _ := by simp

attribute [simp] Recasting.list Recasting.text Recasting.print Recasting.choice Recasting.loop
  Recasting.definition Recasting.tag Recasting.hasBody Recasting.parameters

namespace Token

/-- The names that block tags begin with, in their order. -/
def tags : List Token → List String
  | [] => []
  | ⟨.opening .block, _⟩ :: ⟨.name name, _⟩ :: rest => name :: tags rest
  | _ :: rest => tags rest

theorem mem_tags_iff {tokens : List Token} {name : String} :
    name ∈ tags tokens ↔ ∃ before opened line rest,
      tokens = before ++ ⟨.opening .block, opened⟩ :: ⟨.name name, line⟩ :: rest := by
  fun_induction tags tokens with
  | case1 => simp
  | case2 opened other line rest ih =>
      rw [List.mem_cons, ih]
      constructor
      · rintro (rfl | ⟨before, opened', line', rest', rfl⟩)
        · exact ⟨[], opened, line, rest, rfl⟩
        · exact ⟨⟨.opening .block, opened⟩ :: ⟨.name other, line⟩ :: before, opened', line', rest',
            rfl⟩
      · -- a name does not open a tag, so the tag is this one or behind both tokens
        rintro ⟨_ | ⟨_, _ | ⟨_, before⟩⟩, opened', line', rest', split⟩
        · simp_all
        · simp_all
        · simp only [List.cons_append, List.cons.injEq] at split
          exact .inr ⟨before, opened', line', rest', split.2.2⟩
  | case3 token rest other ih =>
      rw [ih]
      constructor
      · rintro ⟨before, opened, line, rest', rfl⟩
        exact ⟨token :: before, opened, line, rest', rfl⟩
      · rintro ⟨_ | ⟨_, before⟩, opened, line, rest', split⟩
        · obtain ⟨rfl, rfl⟩ := List.cons.inj split
          exact (other opened name line rest' rfl rfl).elim
        · exact ⟨before, opened, line, rest', (List.cons.inj split).2⟩

/-- The tags of a part of some tokens are among those of all of them. -/
theorem tags_subset_of_infix {tokens part : List Token} (h : part <:+: tokens) :
    tags part ⊆ tags tokens := by
  intro name mem
  obtain ⟨left, right, rfl⟩ := h
  obtain ⟨before, opened, line, rest, rfl⟩ := mem_tags_iff.mp mem
  exact mem_tags_iff.mpr ⟨left ++ before, opened, line, rest ++ right, by simp⟩

end Token

/-- The name behind the opener of a block tag is one of those that block tags begin with. -/
theorem TokenStream.mem_tags {s : TokenStream} {name : String}
    (opened : s.current.kind = .opening .block) (named : s.advance.current.kind = .name name) :
    name ∈ Token.tags s.ahead := by
  obtain ⟨_ | ⟨⟨_, _⟩, _ | ⟨⟨_, _⟩, rest⟩⟩, _⟩ := s
  · cases opened
  · cases named
  · cases opened
    cases named
    exact List.mem_cons_self

/-- A dialect has for these names, as far as they are not names of host tags, what another one has
after the exchange, which covers it. -/
def Dialect.RecastBy (f : Recasting) (dialect dialect' : Dialect) (names : List String) : Prop :=
  ∀ name ∈ names, name ∉ ["if", "for", "macro"] →
    dialect'.find? name = (dialect.find? name).map f.directive ∧
      ∀ d, dialect.find? name = some d → f.covers d

variable (f : Recasting)

/-! ## Drafts -/

/-- A body with exchanged nodes. -/
def Body.recast (body : Body) : Body := ⟨body.line, body.nodes.map f.node⟩

/-- An open tag with exchanged nodes. -/
def OpenTag.recast : OpenTag → OpenTag
  | elseBody line condition first => .elseBody line condition (f.node first)
  | directive line d parameters => .directive line (f.directive d) parameters
  | tag => tag

/-- A draft with exchanged nodes. -/
def Draft.recast (draft : Draft) : Draft :=
  ⟨draft.body.recast f, draft.enclosing.map fun (tag, outer) => (tag.recast f, outer.recast f)⟩

theorem Body.node_recast (body : Body) : (body.recast f).node = f.node body.node := by
  simp [Body.node, Body.recast]

theorem Body.push_recast (body : Body) (node : Node) :
    (body.recast f).push (f.node node) = (body.push node).recast f := rfl

theorem OpenTag.ends_recast (tag : OpenTag) : (tag.recast f).ends = tag.ends := by
  cases tag <;> simp [ends, recast, Directive.endTag]

theorem OpenTag.node_recast {tag : OpenTag} (covered : tag.Covered f.covers) (body : Node) :
    (tag.recast f).node (f.node body) = f.node (tag.node body) := by
  cases tag with
  | directive line d parameters =>
      rw [recast, node, node, f.make d line parameters (some body) covered]
      rfl
  | _ => simp [node, recast]

namespace Draft

variable (draft : Draft)

theorem push_recast (node : Node) :
    (draft.recast f).push (f.node node) = (draft.push node).recast f := rfl

theorem node_recast : (draft.recast f).body.node = f.node draft.body.node :=
  Body.node_recast f draft.body

/-! ## Constructs -/

/-- The draft with exchanged nodes is the counterpart of a draft in the recast dialect. -/
def Translation.recast : Translation where
  draft := Draft.recast f
  tag := OpenTag.recast f
  directive := f.directive
  covers := f.covers
  text draft line value := by rw [← push_recast, f.text]
  print draft line value := by rw [← push_recast, f.print]
  lone draft e line parameters covered := by
    rw [← push_recast, f.make e line parameters none covered, Option.map_none]
  within _ _ _ := rfl
  thenBody _ _ := rfl
  loop _ _ _ := rfl
  definition _ _ _ := rfl
  bodied _ _ _ := rfl
  hasBody := f.hasBody
  parameters := f.parameters

/-- A tag that ends the innermost body makes the exchanged node of the one that it ends. -/
theorem closeTag_recast {tag : OpenTag} (covered : tag.Covered f.covers) (outer : Body)
    (enclosing : List (OpenTag × Body)) (name : String) :
    (draft.recast f).closeTag (tag.recast f) (outer.recast f)
        (enclosing.map fun (tag, outer) => (tag.recast f, outer.recast f)) name =
      recast f <$> draft.closeTag tag outer enclosing name := by
  have rest :
      (outer.recast f).push ((tag.recast f).node (draft.recast f).body.node) =
        (outer.push (tag.node draft.body.node)).recast f := by
    rw [node_recast, OpenTag.node_recast f covered, Body.push_recast]
  simp only [closeTag, map_bind]
  congr 1
  funext _
  cases tag with
  | thenBody line condition =>
      cases decide (name = "else") with
      | false => exact congrArg (fun body => pure (Draft.mk body _)) rest
      | true =>
          simp only [OpenTag.recast, node_recast]
          rfl
  | _ => exact congrArg (fun body => pure (Draft.mk body _)) rest

variable {dialect dialect' : Dialect} (bound : Bound)

/-- What a construct comes to, with exchanged nodes. -/
def handRecast (next : Draft ⊕ Node) : Reading (Draft ⊕ Node) :=
  return next.map (recast f) f.node

theorem inl_recast (r : Reading Draft) :
    (Sum.inl <$> recast f <$> r : Reading (Draft ⊕ Node)) = Sum.inl <$> r >>= handRecast f :=
  (Translation.recast f).inl_handed (handRecast f) (fun _ => rfl) r

/-- A block tag is read alike if the dialects agree about the name that it begins with. -/
theorem readBlock_recast {s : TokenStream} (covered : draft.Covered f.covers)
    (agree : ∀ name, s.current.kind = .name name → dialect.RecastBy f dialect' [name]) :
    (draft.recast f).readBlock dialect' bound s =
      (draft.readBlock dialect bound >>= handRecast f) s := by
  simp only [readBlock, bind_assoc, current_bind]
  cases kind : s.current.kind with
  | name name =>
      have opened : (draft.recast f).openTag dialect' s.current.line name =
          recast f <$> draft.openTag dialect s.current.line name :=
        (Translation.recast f).openTag_eq draft (agree name kind name (by simp)) s.current.line
      obtain ⟨body, enclosing⟩ := draft
      cases enclosing with
      | nil =>
          have around : (Draft.recast f ⟨body, []⟩).enclosing = [] := rfl
          simp only [around]
          split
          · split
            · simp only [node_recast, ← bind_pure_comp, bind_assoc, pure_bind, handRecast]
              rfl
            · simp only [node_recast, pure_bind, handRecast]
              rfl
          · simp only [bind_assoc, opened, inl_recast]
      | cons entry enclosing =>
          obtain ⟨tag, outer⟩ := entry
          have around : (Draft.recast f ⟨body, (tag, outer) :: enclosing⟩).enclosing =
              (tag.recast f, outer.recast f) ::
                enclosing.map fun (tag, outer) => (tag.recast f, outer.recast f) := rfl
          simp only [around, bind_assoc, OpenTag.ends_recast]
          have tag_covered : tag.Covered f.covers := covered (tag, outer) (by simp)
          split
          · simp only [closeTag_recast f _ tag_covered, inl_recast]
          · simp only [opened, inl_recast]
  | _ => rfl

/-- One construct is read alike, and leads to the same draft with exchanged nodes. -/
theorem step_recast {s : TokenStream} (covered : draft.Covered f.covers)
    (agree : dialect.RecastBy f dialect' (Token.tags s.ahead)) :
    (draft.recast f).step dialect' bound s =
      (draft.step dialect bound >>= handRecast f) s := by
  refine (Translation.recast f).step_handed draft (handRecast f) (fun _ => rfl) ?_ ?_
  · intro kind
    refine readBlock_recast f draft bound covered fun name behind other mem => ?_
    cases List.mem_singleton.mp mem
    exact agree name (TokenStream.mem_tags kind behind)
  · -- no tag is open if none is in the draft itself
    intro kind
    have around : (draft.recast f).enclosing.isEmpty = draft.enclosing.isEmpty := List.isEmpty_map
    have here : (Translation.recast f).draft draft = draft.recast f := rfl
    simp only [here, step, kind, around, bind, EStateM.bind]
    split
    · rw [node_recast]
      rfl
    · rfl

/-- What is read up to the end of a body is the same with exchanged nodes. -/
theorem read_recast {s : TokenStream} (covered : draft.Covered f.covers)
    (agree : dialect.RecastBy f dialect' (Token.tags s.ahead)) :
    (draft.recast f).read dialect' bound s = EStateM.map f.node (draft.read dialect bound) s := by
  -- what the dialects agree about ahead, they agree about in each part of it
  refine (Translation.recast f).rest_handed draft (handRecast f)
    (fun draft s => draft.Covered f.covers ∧ dialect.RecastBy f dialect' (Token.tags s.ahead)) ?_
    (fun _ => rfl) (fun draft _ within => step_recast f draft bound within.1 within.2)
    ⟨covered, agree⟩
  rintro draft draft' taken s takes ⟨covered, agree⟩
  have part {tokens : List Token} (within : tokens <:+: (s.prepend taken).ahead) :
      dialect.RecastBy f dialect' (Token.tags tokens) :=
    fun name mem => agree name (Token.tags_subset_of_infix within mem)
  refine ⟨takes.covered covered ?_, part (List.suffix_append _ _).isInfix⟩
  rintro opened line name row closed d rfl foreign found
  have named : name ∈ Token.tags (blockTag opened line name row closed) :=
    Token.mem_tags_iff.mpr ⟨[], opened, line, row ++ [⟨.closing .block, closed⟩], rfl⟩
  exact (part (List.prefix_append _ _).isInfix name named foreign).2 d found

end Draft

/-! ## Templates -/

/-- A template with exchanged nodes. -/
def Template.recast (template : Template) : Template := ⟨template.file, f.node template.body⟩

theorem TokenStream.ahead_ofList_prefix (tokens : List Token) :
    (TokenStream.ofList tokens).ahead <+: tokens := by
  unfold TokenStream.ofList
  split
  · exact List.nil_prefix
  · split
    · exact List.dropLast_prefix tokens
    · exact List.prefix_rfl

/-- Dialects that agree, up to an exchange of nodes, about the names that block tags of a source
begin with read it alike: as templates that agree up to the exchange, or with the same report. -/
theorem Dialect.readTemplate_recast {dialect dialect' : Dialect} {source : String}
    (agree : ∀ tokens, tokenize source = .ok tokens →
      dialect.RecastBy f dialect' (Token.tags tokens)) (file : String) :
    dialect'.readTemplate file source =
      (dialect.readTemplate file source).map (Template.recast f) := by
  unfold readTemplate
  cases tokenized : tokenize source with
  | error report => rfl
  | ok tokens =>
      have within : dialect.RecastBy f dialect' (Token.tags (TokenStream.ofList tokens).ahead) :=
        fun name mem => agree tokens tokenized name
          (Token.tags_subset_of_infix (TokenStream.ahead_ofList_prefix tokens).isInfix mem)
      have body : dialect'.readBody .atEnd (.ofList tokens) =
          EStateM.map f.node (dialect.readBody .atEnd) (.ofList tokens) :=
        Draft.read_recast f ⟨⟨(TokenStream.ofList tokens).current.line, []⟩, []⟩ .atEnd
          (by simp [Draft.Covered]) within
      simp only [body, EStateM.map]
      cases dialect.readBody .atEnd (.ofList tokens) with
      | ok node s => rfl
      | error report s => rfl

/-! ## Registered directives -/

/-- Registering a directive changes nothing for names other than its tag, and nothing at all if its
tag is that of a host tag. -/
theorem Dialect.recastBy_register (dialect : Dialect) {d : Directive} {names : List String}
    (unused : d.tag ∈ ["if", "for", "macro"] ∨ d.tag ∉ names) :
    dialect.RecastBy .refl (dialect.register d) names := by
  intro name mem foreign
  have other : d.tag ≠ name := by
    rintro rfl
    exact unused.elim foreign (fun unused => unused mem)
  rw [find?_register, if_neg other]
  exact ⟨(congrFun Option.map_id _).symm, fun _ _ => trivial⟩

/-- A directive only matters for sources in which it is used. Registering it, in place of another
one or not, changes neither the template of a source nor the report about it, if its tag is that of
a host tag or if none of the block tags of the source begins with it. -/
theorem readTemplate_register {dialect : Dialect} {d : Directive} {source : String}
    (unused : d.tag ∈ ["if", "for", "macro"] ∨ ∀ before opened line rest,
      tokenize source ≠
        .ok (before ++ ⟨.opening .block, opened⟩ :: ⟨.name d.tag, line⟩ :: rest))
    (file : String) :
    (dialect.register d).readTemplate file source = dialect.readTemplate file source := by
  have agree : ∀ tokens, tokenize source = .ok tokens →
      dialect.RecastBy .refl (dialect.register d) (Token.tags tokens) := by
    intro tokens tokenized
    refine dialect.recastBy_register (unused.imp_right fun unused mem => ?_)
    obtain ⟨before, opened, line, rest, rfl⟩ := Token.mem_tags_iff.mp mem
    exact unused before opened line rest tokenized
  rw [Dialect.readTemplate_recast .refl agree]
  cases dialect.readTemplate file source <;> rfl

/-- Another directive for rows, which makes a text of the line of its tag and declares a parameter
only for tags on the first line, and a source with the name in it, but not as a tag. -/
theorem readTemplate_register_row :
    let row : Directive :=
      { tag := "row"
        hasBody := false
        parameters := fun name => if name.line = 1 then [⟨"index", .value, none⟩] else []
        node := fun line _ _ => .text 0 (String.ofList (Text.decimal line)) }
    let source := "\x7b% cell row %\x7d\x7b\x7b row \x7d\x7d\x7b% endcell %\x7d"
    (∀ before opened line rest, tokenize source ≠
        .ok (before ++ ⟨.opening .block, opened⟩ :: ⟨.name row.tag, line⟩ :: rest)) ∧
      ((Dialect.spreadsheet .empty).register row).readTemplate "t" source =
        (Dialect.spreadsheet .empty).readTemplate "t" source := by
  intro row source
  have tokenized : tokenize source = .ok [⟨.opening .block, 1⟩, ⟨.name "cell", 1⟩, ⟨.name "row", 1⟩,
      ⟨.closing .block, 1⟩, ⟨.opening .output, 1⟩, ⟨.name "row", 1⟩, ⟨.closing .output, 1⟩,
      ⟨.opening .block, 1⟩, ⟨.name "endcell", 1⟩, ⟨.closing .block, 1⟩, ⟨.eof, 1⟩] :=
    tokenize_of_tokenizeWithin 4 (by cbv)
  have unused : ∀ before opened line rest, tokenize source ≠
      .ok (before ++ ⟨.opening .block, opened⟩ :: ⟨.name row.tag, line⟩ :: rest) := by
    intro before opened line rest tokens
    have mem := Token.mem_tags_iff.mpr
      ⟨before, opened, line, rest, Except.ok.inj (tokenized.symm.trans tokens)⟩
    simp [Token.tags, row] at mem
  exact ⟨unused, readTemplate_register (.inr unused) "t"⟩

end SheetMarkup
