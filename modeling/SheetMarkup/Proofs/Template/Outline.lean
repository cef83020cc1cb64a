import Mathlib
import SheetMarkup.Compile
import SheetMarkup.Proofs.Expr.Display
import SheetMarkup.Proofs.Placement
import SheetMarkup.Proofs.Template.Regular

/-!
# Outlines tell templates

The outline of a template tells its tree, lines included (`compileOutline_determines_body`). The
row of a node ends with its line feed, as what the node holds is shown without one, and tells all
that the node holds apart from other nodes (`Node.row_apart`). Which rows belong to the nodes below
it is told by the spaces in front of them: behind the outline of a node, the next row is not deeper
than the node (`Shallow`). So the outline of a node tells the node by induction on the tree
(`Node.outlineAt_apart`).
-/

namespace SheetMarkup

/-! ## Parts of rows -/

namespace Node

/-- The sort of a node is shown as a word. -/
theorem Kind.exists_display_eq (kind : Kind) : ∃ c cs, kind.display.toList = c :: cs ∧
    ∀ d ∈ c :: cs, (d ≠ ' ' : Bool) = true := by
  cases kind with
  | element e => cases e <;> exact ⟨_, _, rfl, List.all_eq_true.mp rfl⟩
  | _ => exact ⟨_, _, rfl, List.all_eq_true.mp rfl⟩

/-- All sorts of nodes. -/
def Kind.all : List Kind :=
  [.list, .text, .print, .choice, .loop, .definition, .root] ++ Element.all.map .element

theorem Kind.mem_all (kind : Kind) : kind ∈ all := by
  cases kind with
  | element e => exact List.mem_append_right _ (List.mem_map_of_mem (Element.mem_all e))
  | _ => simp [all]

/-- Different sorts of nodes are shown differently. -/
theorem Kind.display_injective {kind kind' : Kind} (h : kind.display = kind'.display) :
    kind = kind' := by
  have different : ∀ k ∈ all, ∀ k' ∈ all, k.display = k'.display → k = k' := by decide
  exact different kind (mem_all kind) kind' (mem_all kind') h

end Node

/-! ## Names -/

/-- A text that no name goes on with. -/
def EndsName (rest : List Char) : Prop := ∀ c ∈ rest.head?, Lexeme.isNameChar c = false

theorem IsIdentifier.apart {name name' : String} (h : IsIdentifier name) (h' : IsIdentifier name') :
    Apart String.toList EndsName name name' := by
  intro rest rest' stop stop' eq
  obtain ⟨same, others⟩ := eq_of_runs eq h.isNameChar_of_mem h'.isNameChar_of_mem stop stop'
  exact ⟨String.toList_injective same, others⟩

theorem endsName_cons {c : Char} (h : Lexeme.isNameChar c = false) (rest : List Char) :
    EndsName (c :: rest) := by
  intro d mem
  cases mem
  exact h

theorem nameList_eq (names : List String) :
    Node.nameList names = separated String.toList names := by
  unfold Node.nameList
  induction names with
  | nil => rfl
  | cons name more ih =>
      cases more with
      | nil => simp [separated]
      | cons next more =>
          rw [String.intercalate_cons_cons, String.toList_append, String.toList_append, ih]
          simp [separated]

/-- Names with commas between them are told up to the bracket that closes them. -/
theorem eq_of_nameList_append {names names' : List String} {rest rest' : List Char}
    (identifiers : ∀ name ∈ names, IsIdentifier name)
    (identifiers' : ∀ name ∈ names', IsIdentifier name)
    (h : Node.nameList names ++ ')' :: rest = Node.nameList names' ++ ')' :: rest') :
    names = names' ∧ rest = rest' := by
  have begins : ∀ name, IsIdentifier name →
      ∀ tail, (name.toList ++ tail).head? ≠ some ')' := by
    rintro name ⟨c, cs, eq, start, -⟩ tail same
    rw [eq] at same
    cases same
    cases start
  rw [nameList_eq, nameList_eq] at h
  exact eq_of_separated_append (by decide)
    (fun name mem name' mem' => (identifiers name mem).apart (identifiers' name' mem'))
    (endsName_cons (by decide)) (endsName_cons (by decide))
    (fun name mem => begins name (identifiers name mem))
    (fun name mem => begins name (identifiers' name mem)) h

/-! ## What stands up to the end of a row -/

section

variable {name name' : String} {e e' : Expr} {rest rest' : List Char}

/-- An expression is told up to the end of its row. -/
theorem Expr.WellFormed.eq_of_append (formed : e.WellFormed) (formed' : e'.WellFormed)
    (h : e.spelling ++ '\n' :: rest = e'.spelling ++ '\n' :: rest') : e = e' ∧ rest = rest' := by
  obtain ⟨same, others⟩ := formed.shownApart e' formed' _ _ (Expr.stops_cons (by decide) _)
    (Expr.stops_cons (by decide) _) h
  exact ⟨same, (List.cons.inj others).2⟩

/-- A name ends at the space in front of the next word. -/
theorem eq_of_binding_append (ident : IsIdentifier name) (ident' : IsIdentifier name')
    (formed : e.WellFormed) (formed' : e'.WellFormed)
    (h : name.toList ++ (" in ".toList ++ (e.spelling ++ '\n' :: rest)) =
      name'.toList ++ (" in ".toList ++ (e'.spelling ++ '\n' :: rest'))) :
    name = name' ∧ e = e' ∧ rest = rest' := by
  have keyword : ∀ cs, EndsName (" in ".toList ++ cs) := fun cs => endsName_cons (by decide) _
  obtain ⟨rfl, more⟩ := ident.apart ident' _ _ (keyword _) (keyword _) h
  exact ⟨rfl, formed.eq_of_append formed' (List.append_cancel_left more)⟩

/-- A name ends at the bracket in front of the arguments. -/
theorem eq_of_signature_append {arguments arguments' : List String} (ident : IsIdentifier name)
    (ident' : IsIdentifier name') (identifiers : ∀ name ∈ arguments, IsIdentifier name)
    (identifiers' : ∀ name ∈ arguments', IsIdentifier name)
    (h : name.toList ++ '(' :: (Node.nameList arguments ++ ')' :: rest) =
      name'.toList ++ '(' :: (Node.nameList arguments' ++ ')' :: rest')) :
    name = name' ∧ arguments = arguments' ∧ rest = rest' := by
  obtain ⟨rfl, more⟩ := ident.apart ident' _ _ (endsName_cons (by decide) _)
    (endsName_cons (by decide) _) h
  exact ⟨rfl, eq_of_nameList_append identifiers identifiers' (List.cons.inj more).2⟩

end

/-! ## Fields -/

/-- How a parameter is shown. -/
def fieldOf (entry : String × Expr) : List Char := Node.field entry.1 entry.2.spelling

theorem stops_fields (entries : List (String × Expr)) (rest : List Char) :
    Expr.Stops (entries.flatMap fieldOf ++ '\n' :: rest) := by
  cases entries with
  | nil => exact Expr.stops_cons (by decide) _
  | cons => exact Expr.stops_cons (by decide) _

/-- Values of the same parameters are told up to the end of the row. -/
theorem eq_of_fields_append {ps : List Parameter} {entries entries' : List (String × Expr)}
    {rest rest' : List Char} (fits : List.Forall₂ Parameter.Fits ps entries)
    (fits' : List.Forall₂ Parameter.Fits ps entries')
    (formed : ∀ entry ∈ entries, entry.2.WellFormed)
    (formed' : ∀ entry ∈ entries', entry.2.WellFormed)
    (h : entries.flatMap fieldOf ++ '\n' :: rest = entries'.flatMap fieldOf ++ '\n' :: rest') :
    entries = entries' ∧ rest = rest' := by
  induction fits generalizing entries' with
  | nil =>
      cases fits'
      exact ⟨rfl, (List.cons.inj h).2⟩
  | @cons p entry ps entries here _ ih =>
      cases fits' with
      | @cons _ entry' _ entries' here' others' =>
          -- both values have the name of the parameter
          obtain ⟨name, value⟩ := entry
          obtain ⟨name', value'⟩ := entry'
          obtain rfl : name = name' := here.1.symm.trans here'.1
          simp only [List.flatMap_cons, fieldOf, Node.field, List.cons_append,
            List.append_assoc] at h
          have values := (List.cons.inj (List.append_cancel_left (List.cons.inj h).2)).2
          have value_formed : value.WellFormed := formed (name, value) (by simp)
          obtain ⟨rfl, more⟩ := value_formed.shownApart value' (formed' (name, value') (by simp))
            _ _ (stops_fields entries rest) (stops_fields entries' rest') values
          obtain ⟨rfl, others⟩ := ih others' (fun entry mem => formed entry (by simp [mem]))
            (fun entry mem => formed' entry (by simp [mem])) more
          exact ⟨rfl, others⟩

/-! ## Rows -/

namespace Node

variable {attributes : OrderedMap String} {a b : Node} {rest rest' : List Char}

/-- What stands behind the line of a node begins with no digit. -/
theorem head?_details (node : Node) (rest : List Char) :
    ∀ c ∈ (node.details ++ '\n' :: rest).head?, c.isDigit = false := by
  have none : ∀ c ∈ ('\n' :: rest).head?, c.isDigit = false := by simp
  have blank : ∀ cs, ∀ c ∈ (' ' :: cs).head?, c.isDigit = false := by simp
  cases node with
  | list => exact none
  | root _ attributes _ =>
      rw [details]
      cases attributes.entries with
      | nil => exact none
      | cons entry entries => exact blank _
  | element _ _ parameters _ =>
      rw [details]
      cases parameters.entries with
      | nil => exact none
      | cons entry entries => exact blank _
  | _ => exact blank _

/-- What a node holds is told up to the end of its row, if its sort and its line are known. -/
theorem eq_of_details_append (ha : a.Regular attributes) (hb : b.Regular attributes)
    (kind : a.kind = b.kind) (onLine : a.line = b.line)
    (h : a.details ++ '\n' :: rest = b.details ++ '\n' :: rest') :
    (a.children = b.children → a = b) ∧ rest = rest' := by
  -- both nodes are of one sort, so the cases are those of `details`
  cases a with
  | list line nodes =>
      cases b with
      | list line' nodes' =>
          obtain rfl : line = line' := onLine
          refine ⟨?_, (List.cons.inj h).2⟩
          rintro (rfl : nodes = nodes')
          rfl
      | _ => cases kind
  | text line value =>
      cases b with
      | text line' value' =>
          obtain rfl : line = line' := onLine
          obtain ⟨same, others⟩ := Text.eq_of_quoted_append (List.cons.inj h).2
          obtain rfl := String.toList_injective same
          exact ⟨fun _ => rfl, (List.cons.inj others).2⟩
      | _ => cases kind
  | print line value =>
      cases b with
      | print line' value' =>
          obtain rfl : line = line' := onLine
          obtain ⟨rfl, others⟩ := ha.eq_of_append hb (List.cons.inj h).2
          exact ⟨fun _ => rfl, others⟩
      | _ => cases kind
  | choice line condition thenBody elseBody =>
      cases b with
      | choice line' condition' thenBody' elseBody' =>
          obtain rfl : line = line' := onLine
          obtain ⟨rfl, others⟩ := ha.eq_of_append hb (List.cons.inj h).2
          refine ⟨?_, others⟩
          intro same
          -- the second body is there if there are two children
          obtain ⟨rfl, more⟩ := List.cons.inj same
          cases elseBody <;> cases elseBody' <;> cases more <;> rfl
      | _ => cases kind
  | loop line binding iterable body =>
      cases b with
      | loop line' binding' iterable' body' =>
          obtain rfl : line = line' := onLine
          simp only [details, List.cons_append, List.append_assoc] at h
          obtain ⟨rfl, rfl, others⟩ :=
            eq_of_binding_append ha.1 hb.1 ha.2 hb.2 (List.cons.inj h).2
          refine ⟨?_, others⟩
          intro same
          cases same
          rfl
      | _ => cases kind
  | definition line name arguments body =>
      cases b with
      | definition line' name' arguments' body' =>
          obtain rfl : line = line' := onLine
          simp only [details, List.cons_append, List.append_assoc, List.nil_append] at h
          obtain ⟨rfl, rfl, others⟩ :=
            eq_of_signature_append ha.1 hb.1 ha.2 hb.2 (List.cons.inj h).2
          refine ⟨?_, (List.cons.inj others).2⟩
          intro same
          cases same
          rfl
      | _ => cases kind
  | root line own workbook =>
      cases b with
      | root line' own' workbook' =>
          obtain rfl : line = line' := onLine
          -- both carry the attributes of the document
          obtain rfl : own = attributes := ha
          obtain rfl : own' = own := hb
          refine ⟨?_, (List.cons.inj (List.append_cancel_left h)).2⟩
          intro same
          cases same
          rfl
      | _ => cases kind
  | element line e parameters body =>
      cases b with
      | element line' e' parameters' body' =>
          obtain rfl : line = line' := onLine
          obtain rfl : e = e' := Kind.element.inj kind
          obtain ⟨same, others⟩ := eq_of_fields_append ha.1 hb.1 ha.2 hb.2 h
          obtain rfl := OrderedMap.ext same
          refine ⟨?_, others⟩
          intro same
          cases body <;> cases body' <;> cases same <;> rfl
      | _ => cases kind

/-- The row of a node tells what the node holds apart from other nodes. -/
theorem row_apart (ha : a.Regular attributes) (hb : b.Regular attributes) {depth : Nat}
    (h : a.row depth ++ rest = b.row depth ++ rest') :
    (a.children = b.children → a = b) ∧ rest = rest' := by
  simp only [row, heading, List.append_assoc, List.singleton_append] at h
  have headings := List.append_cancel_left h
  -- the sort ends at the first space
  have word : ∀ kind : Kind, ∀ c ∈ kind.display.toList, (c ≠ ' ' : Bool) = true := by
    intro kind
    obtain ⟨c, cs, eq, none⟩ := kind.exists_display_eq
    rw [eq]
    exact none
  have stop : ∀ cs : List Char, ∀ c ∈ (" @".toList ++ cs).head?, (c ≠ ' ' : Bool) = false := by
    intro cs c mem
    cases mem
    rfl
  obtain ⟨shown, more⟩ := eq_of_runs headings (word _) (word _) (stop _) (stop _)
  have kind := Kind.display_injective (String.toList_injective shown)
  obtain ⟨onLine, details⟩ := Text.eq_of_decimal_append (List.append_cancel_left more)
    (head?_details a rest) (head?_details b rest')
  exact eq_of_details_append ha hb kind onLine details

/-! ## Trees -/

/-- The outline of a node that lies this deep. -/
def outlineAt (depth : Nat) (node : Node) : List Char :=
  (node.levels depth).flatMap fun (depth, node) => node.row depth

theorem outlineAt_eq (depth : Nat) (node : Node) :
    node.outlineAt depth = node.row depth ++ node.children.flatMap (outlineAt (depth + 1)) := by
  rw [outlineAt, levels_eq, List.flatMap_cons, List.flatMap_assoc]
  rfl

/-- The number of spaces at the beginning of a text. -/
def indentation (cs : List Char) : Nat := (cs.takeWhile (· = ' ')).length

/-- A text whose first row is not deeper than this. -/
def Shallow (depth : Nat) (rest : List Char) : Prop := indentation rest ≤ 2 * depth

theorem Shallow.mono {depth depth' : Nat} (h : Shallow depth rest) (le : depth ≤ depth') :
    Shallow depth' rest :=
  Nat.le_trans h (Nat.mul_le_mul_left 2 le)

/-- An outline begins with the spaces for its depth. -/
theorem indentation_outlineAt (depth : Nat) (node : Node) (rest : List Char) :
    indentation (node.outlineAt depth ++ rest) = 2 * depth := by
  obtain ⟨c, cs, eq, none⟩ := node.kind.exists_display_eq
  have blanks : ∀ d ∈ List.replicate (2 * depth) ' ', (d = ' ' : Bool) = true := by
    intro d mem
    simp [List.eq_of_mem_replicate mem]
  have stop : ∀ more : List Char, ∀ d ∈ (node.kind.display.toList ++ more).head?,
      (d = ' ' : Bool) = false := by
    intro more d mem
    rw [eq] at mem
    cases mem
    simpa using none c (by simp)
  rw [indentation, outlineAt_eq, row, heading]
  simp only [List.append_assoc]
  rw [(takeWhile_append_stop blanks (stop _)).1, List.length_replicate]

/-- The outline of a regular tree tells the tree, if no deeper row follows. -/
theorem outlineAt_apart {node : Node} (h : node.Throughout (Regular attributes)) :
    ∀ depth other, other.Throughout (Regular attributes) →
      Apart (outlineAt depth) (Shallow depth) node other := by
  induction node using inductionOn with
  | step node ih =>
      intro depth other h' rest rest' shallow shallow' eq
      rw [outlineAt_eq, outlineAt_eq, List.append_assoc, List.append_assoc] at eq
      obtain ⟨same, more⟩ := row_apart h.here h'.here eq
      have children : ∀ a ∈ node.children, ∀ b ∈ other.children,
          Apart (outlineAt (depth + 1)) (Shallow (depth + 1)) a b := fun a mem b mem' =>
        ih a mem (h.of_mem_children a mem) (depth + 1) b (h'.of_mem_children b mem')
      have behind : ∀ (a : Node) tail, Shallow (depth + 1) (a.outlineAt (depth + 1) ++ tail) :=
        fun a tail => Nat.le_of_eq (indentation_outlineAt _ a tail)
      -- the outline of a child is too deep to stand behind that of the node
      have ends : ∀ {rest}, Shallow depth rest → ∀ (a : Node) tail,
          rest ≠ a.outlineAt (depth + 1) ++ tail := by
        rintro rest shallow a tail rfl
        have deep := indentation_outlineAt (depth + 1) a tail
        unfold Shallow at shallow
        omega
      obtain ⟨kids, others⟩ := eq_of_flatMap_append children (fun a _ tail _ => behind a tail)
        (fun b _ tail _ => behind b tail) (shallow.mono (Nat.le_succ depth))
        (shallow'.mono (Nat.le_succ depth)) (fun b _ => ends shallow b)
        (fun a _ => ends shallow' a) more
      exact ⟨same kids, others⟩

end Node

/-! ## Templates -/

theorem exists_template_of_compileOutline {dialect : Dialect} {file source shown : String}
    (h : dialect.compileOutline file source = .ok shown) :
    ∃ template, dialect.compile file source = .ok template ∧ shown = template.outline := by
  unfold Dialect.compileOutline at h
  cases compiled : dialect.compile file source with
  | error report =>
      rw [compiled] at h
      cases h
  | ok template =>
      rw [compiled] at h
      cases h
      exact ⟨template, rfl, rfl⟩

/-- A template that is compiled is one that was read. -/
theorem readTemplate_of_compile {dialect : Dialect} {file source : String} {template : Template}
    (h : dialect.compile file source = .ok template) :
    dialect.readTemplate file source = .ok template :=
  (Dialect.compile_eq_ok_iff.mp h).1

/-- Two templates of documents with the same attributes that have the same outline have the same
body, lines included, whatever their sources and files are. -/
theorem compileOutline_determines_body {attributes : OrderedMap String}
    {file file' source source' shown : String}
    (h : (Dialect.spreadsheet attributes).compileOutline file source = .ok shown)
    (h' : (Dialect.spreadsheet attributes).compileOutline file' source' = .ok shown) :
    ∃ template template',
      (Dialect.spreadsheet attributes).compile file source = .ok template ∧
      (Dialect.spreadsheet attributes).compile file' source' = .ok template' ∧
      template.body = template'.body := by
  obtain ⟨template, compiled, rfl⟩ := exists_template_of_compileOutline h
  obtain ⟨template', compiled', same⟩ := exists_template_of_compileOutline h'
  refine ⟨template, template', compiled, compiled', ?_⟩
  have regular := throughout_regular_of_readTemplate (readTemplate_of_compile compiled)
  have regular' := throughout_regular_of_readTemplate (readTemplate_of_compile compiled')
  have outlines : template.body.outlineAt 0 ++ [] = template'.body.outlineAt 0 ++ [] := by
    rw [List.append_nil, List.append_nil]
    exact String.ofList_injective same
  have nothing : Node.Shallow 0 [] := Nat.le_refl 0
  exact (Node.outlineAt_apart regular 0 _ regular' [] [] nothing nothing outlines).1

/-- A printed value with and without blanks around it, in two files. -/
theorem compileOutline_determines_body_blanks :
    ∃ template template',
      (Dialect.spreadsheet .empty).compile "a" "x\x7b\x7b y \x7d\x7d" = .ok template ∧
      (Dialect.spreadsheet .empty).compile "b" "x\x7b\x7by\x7d\x7d" = .ok template' ∧
      template.body = template'.body := by
  have shown : (Dialect.spreadsheet .empty).compileOutline "a" "x\x7b\x7b y \x7d\x7d" =
      .ok "list @1\n  text @1 \"x\"\n  print @1 y\n" := by
    cbv
  have again : (Dialect.spreadsheet .empty).compileOutline "b" "x\x7b\x7by\x7d\x7d" =
      .ok "list @1\n  text @1 \"x\"\n  print @1 y\n" := by
    cbv
  exact compileOutline_determines_body shown again

end SheetMarkup
