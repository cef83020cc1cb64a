import Mathlib.Data.List.Induction
import SheetMarkup.Compile

/-!
# The rules of placement

`Node.check` walks a tree with a path of open nodes. The rules it is there for speak of the tree
alone: of the nodes around a node and of the nodes directly below it. This module states the rules
on the occurrences of nodes in a tree, in the order from above to below, and shows that the walk
decides them and reports the first occurrence that breaks one (`check_decides_placement`). A walk
can be used again, whatever came of it (`check_reusable`). A template is compiled if it can be read
and breaks no rule (`Dialect.compile_eq_ok_iff`).
-/

namespace SheetMarkup

/-- A node in a tree, with the nodes around it, innermost first. -/
structure Occurrence where
  around : List Node
  node : Node

namespace Node

/-- The occurrences of a node and of all nodes below it, from above to below: a node comes before
its children, and a child with all below it before the next one. -/
def occurrences (around : List Node) (node : Node) : List Occurrence :=
  ⟨around, node⟩ :: node.children.attach.flatMap fun child => child.1.occurrences (node :: around)
termination_by sizeOf node
decreasing_by exact sizeOf_lt_of_mem_children child.2

theorem occurrences_eq (around : List Node) (node : Node) :
    node.occurrences around =
      ⟨around, node⟩ :: node.children.flatMap (occurrences (node :: around)) := by
  rw [occurrences]
  simp [List.flatMap_def]

/-- The nearest element among the nodes around a node. -/
def nearestElement? : List Node → Option Element
  | [] => none
  | .element _ e _ _ :: _ => some e
  | _ :: around => nearestElement? around

/-- A child that may not stand behind its earlier siblings: a text behind a document root, or a
document root behind a text. -/
def Offends (before : List Node) (child : Node) : Prop :=
  (child.kind = .text ∧ ∃ c ∈ before, c.kind = .root) ∨
    (child.kind = .root ∧ ∃ c ∈ before, c.kind = .text)

end Node

namespace Occurrence

/-- An element inside of one that it may not stand in. -/
def Misplaced (o : Occurrence) : Prop :=
  ∃ e parent, o.node.kind = .element e ∧ Node.nearestElement? o.around = some parent ∧
    parent ∉ e.parents

/-- A node other than an element with both a text and a document root directly below it. -/
def Mixed (o : Occurrence) : Prop :=
  (∀ e, o.node.kind ≠ .element e) ∧ (∃ c ∈ o.node.children, c.kind = .text) ∧
    ∃ c ∈ o.node.children, c.kind = .root

/-- The message and the line of what is wrong at an occurrence. A misplaced element is named
together with the nearest element around it; of mixed children, the first that offends is meant. -/
inductive Fault : Occurrence → String → Nat → Prop
  | misplaced {around : List Node} {line : Nat} {e parent : Element}
      {parameters : OrderedMap Expr} {body : Option Node}
      (nearest : Node.nearestElement? around = some parent) (foreign : parent ∉ e.parents) :
      Fault ⟨around, .element line e parameters body⟩
        ("Node \"" ++ e.tag ++ "\" is not allowed inside of Node \"" ++ parent.tag ++ "\".") line
  | text {around before after : List Node} {node : Node} {line : Nat} {value : String}
      (host : ∀ e, node.kind ≠ .element e)
      (split : node.children = before ++ .text line value :: after)
      (root : ∃ c ∈ before, c.kind = .root)
      (first : ∀ earlier c later, before = earlier ++ c :: later → ¬ Node.Offends earlier c) :
      Fault ⟨around, node⟩ "Node \"text\" is not allowed after Node \"document-root\"." line
  | root {around before after : List Node} {node : Node} {line : Nat}
      {attributes : OrderedMap String} {workbook : Node}
      (host : ∀ e, node.kind ≠ .element e)
      (split : node.children = before ++ .root line attributes workbook :: after)
      (text : ∃ c ∈ before, c.kind = .text)
      (first : ∀ earlier c later, before = earlier ++ c :: later → ¬ Node.Offends earlier c) :
      Fault ⟨around, node⟩ "Node \"text\" is not allowed before Node \"document-root\"." line

/-- What the check reports at an occurrence, below a path that was open before. -/
def report? (base : Path) (o : Occurrence) : Option Report :=
  o.node.fault ⟨o.around.map Node.kind ++ base.kinds⟩

end Occurrence

/-- A report is about the first node of a tree that breaks a rule, and says what is wrong with
it. -/
def Node.FirstFault (node : Node) (report : Report) : Prop :=
  ∃ before o after line, node.occurrences [] = before ++ o :: after ∧
    (∀ p ∈ before, ¬ p.Misplaced ∧ ¬ p.Mixed) ∧ (o.Misplaced ∨ o.Mixed) ∧
    report.line = some line ∧ o.Fault report.cause.message line

/-! ## The walk and the occurrences -/

section Walk

variable (base : Path)

/-- What checking nodes one after another comes to when each check is known. -/
theorem forM_check_eq (around nodes : List Node)
    (each : ∀ node ∈ nodes, node.check ⟨around.map Node.kind ++ base.kinds⟩ =
      match (node.occurrences around).findSome? (Occurrence.report? base) with
      | some report => .error report .empty
      | none => .ok () ⟨around.map Node.kind ++ base.kinds⟩) :
    nodes.forM Node.check ⟨around.map Node.kind ++ base.kinds⟩ =
      match (nodes.flatMap (Node.occurrences around)).findSome? (Occurrence.report? base) with
      | some report => .error report .empty
      | none => .ok () ⟨around.map Node.kind ++ base.kinds⟩ := by
  induction nodes with
  | nil => rfl
  | cons node nodes ih =>
      have rest := ih fun n mem => each n (List.mem_cons_of_mem _ mem)
      have first := each node List.mem_cons_self
      simp only [List.forM_eq_forM] at rest ⊢
      rw [List.forM_cons, List.flatMap_cons, List.findSome?_append]
      simp only [bind, EStateM.bind, first]
      -- an error ends the loop at once, a node that passes leaves the path for the next one
      cases (node.occurrences around).findSome? (Occurrence.report? base) with
      | some report => rfl
      | none =>
          simp only [Option.none_or]
          exact rest

/-- The check reports what the first occurrence with a report has, and leaves no path then; without
one it leaves the path as it was. -/
theorem check_eq_findSome?_around (node : Node) :
    ∀ around : List Node, node.check ⟨around.map Node.kind ++ base.kinds⟩ =
      match (node.occurrences around).findSome? (Occurrence.report? base) with
      | some report => .error report .empty
      | none => .ok () ⟨around.map Node.kind ++ base.kinds⟩ := by
  induction node using Node.inductionOn with
  | step node ih =>
      intro around
      have below := forM_check_eq base (node :: around) node.children
        fun child mem => ih child mem (node :: around)
      rw [Node.check_eq, Node.occurrences_eq, List.findSome?_cons]
      simp only [bind, EStateM.bind, Node.enter, Occurrence.report?]
      -- the children are checked below the node, and leaving it gives its path back
      cases node.fault ⟨around.map Node.kind ++ base.kinds⟩ with
      | some report => rfl
      | none =>
          simp only [Path.push]
          simp only [List.map_cons, List.cons_append] at below
          rw [below]
          cases (node.children.flatMap (Node.occurrences (node :: around))).findSome?
            (Occurrence.report? base) <;> rfl

/-- The same for a tree that nothing but the path stands around. -/
theorem check_eq_findSome? (node : Node) :
    node.check base =
      match (node.occurrences []).findSome? (Occurrence.report? base) with
      | some report => .error report .empty
      | none => .ok () base :=
  check_eq_findSome?_around base node []

end Walk

/-! ## Siblings -/

namespace Node

/-- No child offends. -/
def Separated (nodes : List Node) : Prop :=
  ∀ before child after, nodes = before ++ child :: after → ¬ Offends before child

theorem separated_nil : Separated [] := by
  intro before child after split
  simp at split

theorem separated_concat (nodes : List Node) (child : Node) :
    Separated (nodes ++ [child]) ↔ Separated nodes ∧ ¬ Offends nodes child := by
  constructor
  · intro h
    refine ⟨fun before c after split => h before c (after ++ [child]) (by simp [split]), ?_⟩
    exact h nodes child [] rfl
  · rintro ⟨earlier, last⟩ before c after split
    -- the child that would offend is the new one, or one of those before it
    rcases List.eq_nil_or_concat after with rfl | ⟨init, d, rfl⟩
    · obtain ⟨rfl, rfl⟩ := List.append_singleton_inj.mp split
      exact last
    · have inner : nodes ++ [child] = (before ++ c :: init) ++ [d] := by simpa using split
      exact earlier before c init (List.append_inj_left' inner rfl)

/-- Siblings are separated if there are no texts or no document roots among them. -/
theorem separated_iff (nodes : List Node) :
    Separated nodes ↔ ¬ ((∃ c ∈ nodes, c.kind = .text) ∧ ∃ c ∈ nodes, c.kind = .root) := by
  induction nodes using List.reverseRecOn with
  | nil => simp [separated_nil]
  | append_singleton nodes child ih =>
      rw [separated_concat, ih]
      simp only [Offends, List.mem_append, List.mem_singleton, or_and_right, exists_or,
        exists_eq_left]
      -- no node is both, so the new one can only complete a pair with an earlier one
      have apart : ¬ (child.kind = .text ∧ child.kind = .root) := by
        rintro ⟨text, root⟩
        exact absurd (text.symm.trans root) (by decide)
      grind

/-- Whether a node of this sort is among some nodes. -/
def hasKind (kind : Kind) (nodes : List Node) : Bool := nodes.any fun c => c.kind = kind

theorem hasKind_iff {kind : Kind} {nodes : List Node} :
    hasKind kind nodes = true ↔ ∃ c ∈ nodes, c.kind = kind := by
  simp [hasKind]

theorem hasKind_concat (kind : Kind) (nodes : List Node) (child : Node) :
    hasKind kind (nodes ++ [child]) = (hasKind kind nodes || decide (child.kind = kind)) := by
  simp [hasKind]

theorem offends_iff {before : List Node} {child : Node} :
    Offends before child ↔ (child.kind = .text ∧ hasKind .root before = true) ∨
      (child.kind = .root ∧ hasKind .text before = true) := by
  simp only [Offends, hasKind_iff]

/-- One step of the search for a fault among siblings. -/
theorem siblingFault_cons (texts roots : Bool) (child : Node) (nodes : List Node) :
    siblingFault texts roots (child :: nodes) =
      if (child.kind = .text ∧ roots = true) ∨ (child.kind = .root ∧ texts = true) then
        some (.onLine (if child.kind = .text then .textAfterRoot else .textBeforeRoot) child.line)
      else
        siblingFault (texts || decide (child.kind = .text)) (roots || decide (child.kind = .root))
          nodes := by
  cases child <;> cases texts <;> cases roots <;> rfl

/-- Behind separated siblings, the search for a fault goes through the next ones: it finds nothing
if they are all separated, and otherwise the first that offends. -/
theorem siblingFault_eq (before nodes : List Node) (separated : Separated before) :
    (siblingFault (hasKind .text before) (hasKind .root before) nodes = none ∧
        Separated (before ++ nodes)) ∨
      ∃ between child after, nodes = between ++ child :: after ∧ Separated (before ++ between) ∧
        Offends (before ++ between) child ∧
        siblingFault (hasKind .text before) (hasKind .root before) nodes =
          some (.onLine (if child.kind = .text then .textAfterRoot else .textBeforeRoot)
            child.line) := by
  induction nodes generalizing before with
  | nil => exact .inl ⟨rfl, by simpa using separated⟩
  | cons child nodes ih =>
      rw [siblingFault_cons]
      -- the two flags say which sorts were seen before, which is all that `Offends` depends on
      by_cases offends : Offends before child
      · refine .inr ⟨[], child, nodes, rfl, by simpa using separated, by simpa using offends, ?_⟩
        exact if_pos (offends_iff.mp offends)
      · rw [if_neg fun found => offends (offends_iff.mpr found), ← hasKind_concat,
          ← hasKind_concat]
        rcases ih (before ++ [child]) ((separated_concat _ _).mpr ⟨separated, offends⟩) with
          ⟨none, all⟩ | ⟨between, c, after, rfl, sep, off, found⟩
        · exact .inl ⟨none, by simpa using all⟩
        · exact .inr ⟨child :: between, c, after, rfl, by simpa using sep, by simpa using off,
            found⟩

end Node

/-! ## The rules at one occurrence -/

namespace Occurrence

theorem nearest?_map (around : List Node) :
    (⟨around.map Node.kind⟩ : Path).nearest? = Node.nearestElement? around := by
  induction around with
  | nil => rfl
  | cons node around ih =>
      cases node with
      | element => rfl
      | _ => exact ih

/-- Only elements are checked against the nodes around them. -/
theorem report?_element (around : List Node) (line : Nat) (e : Element)
    (parameters : OrderedMap Expr) (body : Option Node) :
    report? .empty ⟨around, .element line e parameters body⟩ =
      match Node.nearestElement? around with
      | none => none
      | some parent =>
        if parent ∈ e.parents then none else some (.onLine (.misplacedElement e parent) line) := by
  rw [← nearest?_map]
  simp only [report?, Path.empty, List.append_nil]
  rfl

theorem report?_host {o : Occurrence} (host : ∀ e, o.node.kind ≠ .element e) :
    report? .empty o = Node.siblingFault false false o.node.children := by
  obtain ⟨around, node⟩ := o
  cases node with
  | element _ e _ _ => exact absurd rfl (host e)
  | _ => rfl

/-- A rule is broken at an occurrence if something is reported there, and then it is what the rule
asks to be reported. -/
def Told (o : Occurrence) : Prop :=
  (report? .empty o = none ∧ ¬ o.Misplaced ∧ ¬ o.Mixed) ∨
    ∃ report line, report? .empty o = some report ∧ (o.Misplaced ∨ o.Mixed) ∧
      report.line = some line ∧ o.Fault report.cause.message line

theorem told_element (around : List Node) (line : Nat) (e : Element)
    (parameters : OrderedMap Expr) (body : Option Node) :
    Told ⟨around, .element line e parameters body⟩ := by
  have unmixed : ¬ Mixed ⟨around, .element line e parameters body⟩ := fun mixed => mixed.1 e rfl
  rw [Told, report?_element]
  cases nearest : Node.nearestElement? around with
  | none =>
      refine .inl ⟨rfl, ?_, unmixed⟩
      rintro ⟨_, _, _, some, _⟩
      exact absurd (nearest.symm.trans some) (by simp)
  | some parent =>
      by_cases allowed : parent ∈ e.parents
      · refine .inl ⟨if_pos allowed, ?_, unmixed⟩
        rintro ⟨e', parent', same, some, foreign⟩
        cases same
        cases nearest.symm.trans some
        exact foreign allowed
      · exact .inr ⟨_, line, if_neg allowed, .inl ⟨e, parent, rfl, nearest, allowed⟩, rfl,
          .misplaced nearest allowed⟩

/-- At any other node only the siblings below it matter. -/
theorem told_host {o : Occurrence} (host : ∀ e, o.node.kind ≠ .element e) : o.Told := by
  obtain ⟨around, node⟩ := o
  have placed : ¬ Misplaced ⟨around, node⟩ := fun ⟨e, _, kind, _⟩ => host e kind
  rw [Told, report?_host host]
  rcases Node.siblingFault_eq [] node.children Node.separated_nil with
    ⟨none, separated⟩ | ⟨before, child, after, split, separated, offends, found⟩
  · exact .inl ⟨none, placed, fun mixed => (Node.separated_iff _).mp separated mixed.2⟩
  · have mixed : Mixed ⟨around, node⟩ := by
      refine ⟨host, not_not.mp fun unmixed => ?_⟩
      exact (Node.separated_iff _).mpr unmixed before child after split offends
    refine .inr ⟨_, child.line, found, .inr mixed, rfl, ?_⟩
    rcases offends with ⟨kind, root⟩ | ⟨kind, text⟩
    · cases child with
      | text line value => exact .text host split root separated
      | _ => cases kind
    · cases child with
      | root line attributes workbook => exact .root host split text separated
      | _ => cases kind

theorem told (o : Occurrence) : o.Told := by
  obtain ⟨around, node⟩ := o
  cases node with
  | element line e parameters body => exact told_element around line e parameters body
  | _ => exact told_host (by simp [Node.kind])

end Occurrence

/-! ## The check -/

/-- The first occurrence at which something is reported breaks a rule, and those before it do
not. -/
theorem findSome?_report?_spec (os : List Occurrence) :
    (os.findSome? (Occurrence.report? .empty) = none ∧ ∀ o ∈ os, ¬ o.Misplaced ∧ ¬ o.Mixed) ∨
      ∃ report before o after line, os.findSome? (Occurrence.report? .empty) = some report ∧
        os = before ++ o :: after ∧ (∀ p ∈ before, ¬ p.Misplaced ∧ ¬ p.Mixed) ∧
        (o.Misplaced ∨ o.Mixed) ∧ report.line = some line ∧
        o.Fault report.cause.message line := by
  induction os with
  | nil => exact .inl ⟨rfl, by simp⟩
  | cons o os ih =>
      rcases o.told with ⟨none, sound⟩ | ⟨report, line, some, broken, placed, fault⟩
      · rcases ih with ⟨found, rest⟩ | ⟨report, before, p, after, line, found, rfl, rest, spec⟩
        · exact .inl ⟨by simp [none, found], by simpa [sound] using rest⟩
        · exact .inr ⟨report, o :: before, p, after, line, by simp [none, found], rfl,
            by simpa [sound] using rest, spec⟩
      · exact .inr ⟨report, [], o, os, line, by simp [some], rfl, by simp, broken, placed, fault⟩

/-- The check of a tree in which no rule is broken succeeds, and otherwise the first fault is
reported. -/
theorem check_empty_spec (node : Node) :
    (node.check .empty = .ok () .empty ∧
        ∀ o ∈ node.occurrences [], ¬ o.Misplaced ∧ ¬ o.Mixed) ∨
      ∃ report, node.check .empty = .error report .empty ∧ node.FirstFault report := by
  rw [check_eq_findSome?]
  rcases findSome?_report?_spec (node.occurrences []) with
    ⟨found, sound⟩ | ⟨report, before, o, after, line, found, split, rest, broken, spec⟩
  · rw [found]
    exact .inl ⟨rfl, sound⟩
  · rw [found]
    exact .inr ⟨report, rfl, before, o, after, line, split, rest, broken, spec⟩

theorem Node.FirstFault.not_sound {node : Node} {report : Report} (h : node.FirstFault report) :
    ¬ ∀ o ∈ node.occurrences [], ¬ o.Misplaced ∧ ¬ o.Mixed := by
  obtain ⟨before, o, after, _, split, -, broken, -⟩ := h
  intro sound
  obtain ⟨placed, unmixed⟩ := sound o (by simp [split])
  exact broken.elim placed unmixed

/-- The check of a tree succeeds if no element stands inside of one that it may not stand in and no
other node has texts and document roots as children. Otherwise it reports the first node, from
above to below, for which that is not so. -/
theorem check_decides_placement (node : Node) :
    ((∃ path, node.check .empty = .ok () path) ↔
        ∀ o ∈ node.occurrences [], ¬ o.Misplaced ∧ ¬ o.Mixed) ∧
      ∀ report path, node.check .empty = .error report path → node.FirstFault report := by
  rcases check_empty_spec node with ⟨walk, sound⟩ | ⟨report, walk, fault⟩
  · refine ⟨⟨fun _ => sound, fun _ => ⟨_, walk⟩⟩, ?_⟩
    intro report path failed
    cases walk.symm.trans failed
  · refine ⟨⟨?_, fun sound => (fault.not_sound sound).elim⟩, ?_⟩
    · rintro ⟨path, passed⟩
      cases walk.symm.trans passed
    · intro report' path failed
      cases walk.symm.trans failed
      exact fault

/-- A sheet in which a condition has a text, a row, a document root and a cell in its body. -/
def mixedInSheet : Node :=
  .element 1 .sheet .empty (some (.list 2 [.choice 3 (.name "c") (.list 4
    [.text 4 "a", .element 5 .row .empty (some (.list 6 [])), .root 7 .empty (.list 7 []),
      .element 8 .cell .empty none]) none]))

theorem check_decides_placement_mixed :
    mixedInSheet.check .empty = .error (.onLine .textBeforeRoot 7) .empty ∧
      mixedInSheet.FirstFault (.onLine .textBeforeRoot 7) := by
  have failed : mixedInSheet.check .empty = .error (.onLine .textBeforeRoot 7) .empty := by cbv
  exact ⟨failed, (check_decides_placement mixedInSheet).2 _ _ failed⟩

/-! ## Checks one after another -/

/-- How the check of a node ends below a path, and the path it leaves. -/
def Node.checkFrom (path : Path) (node : Node) : Except Report Unit × Path :=
  match node.check path with
  | .ok _ left => (.ok (), left)
  | .error report left => (.error report, left)

/-- Nodes checked one after another, each from the path that the one before it left: how each check
ends, and the path behind it. -/
def Node.checkEach : Path → List Node → List (Except Report Unit × Path)
  | _, [] => []
  | path, node :: more => node.checkFrom path :: checkEach (node.checkFrom path).2 more

/-- A check gives its path back if the node passes, and leaves no path if not. -/
theorem check_leaves_path (node : Node) (path : Path) :
    node.check path = .ok () path ∨ ∃ report, node.check path = .error report .empty := by
  rw [check_eq_findSome?]
  cases (node.occurrences []).findSome? (Occurrence.report? path) with
  | none => exact .inl rfl
  | some report => exact .inr ⟨report, rfl⟩

/-- From the empty path, both ways to end leave the empty path. -/
theorem checkFrom_empty_snd (node : Node) : (node.checkFrom .empty).2 = .empty := by
  unfold Node.checkFrom
  rcases check_leaves_path node .empty with passed | ⟨report, failed⟩
  · rw [passed]
  · rw [failed]

/-- Checks one after another do not see each other: whether the nodes before it passed or not, each
node is checked as it would be alone. -/
theorem checkEach_empty (nodes : List Node) :
    Node.checkEach .empty nodes =
      nodes.map fun node => ((node.checkFrom .empty).1, Path.empty) := by
  induction nodes with
  | nil => rfl
  | cons node more ih =>
      rw [Node.checkEach, checkFrom_empty_snd, ih, List.map_cons]
      congr 1
      exact Prod.ext rfl (checkFrom_empty_snd node)

/-- A walk can be used again whatever came of it. A check leaves the path as it was if the node
passes and empties it if not, wherever in the tree the fault is; so in any row of nodes each check
ends as the first one would, and leaves the path empty. -/
theorem check_reusable :
    (∀ (node : Node) (path : Path),
      node.check path = .ok () path ∨ ∃ report, node.check path = .error report .empty) ∧
    ∀ nodes : List Node, Node.checkEach .empty nodes =
      nodes.map fun node => ((node.checkFrom .empty).1, Path.empty) :=
  ⟨check_leaves_path, checkEach_empty⟩

-- the cell in the middle stands below a workbook, the one behind it stands alone
example : Node.checkEach .empty [.text 1 "a",
      .element 2 .workbook .empty (some (.element 3 .cell .empty none)),
      .element 4 .cell .empty none] =
    [(.ok (), .empty), (.error (.onLine (.misplacedElement .cell .workbook) 3), .empty),
      (.ok (), .empty)] := by cbv

/-! ## Compiled templates -/

/-- A template passes the check as it is, if no rule is broken in it. -/
theorem Template.check_eq_ok_iff {template checked : Template} :
    template.check = .ok checked ↔
      checked = template ∧ ∀ o ∈ template.body.occurrences [], ¬ o.Misplaced ∧ ¬ o.Mixed := by
  unfold Template.check
  rcases check_empty_spec template.body with ⟨walk, sound⟩ | ⟨report, walk, fault⟩
  · simp only [walk, Except.ok.injEq]
    exact ⟨fun same => ⟨same.symm, sound⟩, fun h => h.1.symm⟩
  · simp only [walk, reduceCtorEq, false_iff, not_and]
    exact fun _ => fault.not_sound

/-- The template of a source is compiled if no rule is broken in it. -/
theorem Dialect.compile_eq_ok_iff {dialect : Dialect} {file source : String}
    {template : Template} :
    dialect.compile file source = .ok template ↔
      dialect.readTemplate file source = .ok template ∧
        ∀ o ∈ template.body.occurrences [], ¬ o.Misplaced ∧ ¬ o.Mixed := by
  unfold Dialect.compile
  cases dialect.readTemplate file source with
  | error report => simp [Except.bind]
  | ok read =>
      simp only [Except.bind, Template.check_eq_ok_iff, Except.ok.injEq]
      constructor
      · rintro ⟨rfl, sound⟩
        exact ⟨rfl, sound⟩
      · rintro ⟨rfl, sound⟩
        exact ⟨rfl, sound⟩

end SheetMarkup
