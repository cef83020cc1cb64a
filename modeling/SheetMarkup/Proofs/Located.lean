import Mathlib
import SheetMarkup.Compile
import SheetMarkup.Proofs.Occurrences
import SheetMarkup.Proofs.Spreadsheet
import SheetMarkup.Proofs.Template.Evaluation
import SheetMarkup.Proofs.Template.Reports

/-!
# Every report has a place

Whatever is wrong with a template, the report says in which file and on which line
(`compile_error_located`). Reports come from the tags of the source (`Cut.on_of_tokens_eq_error`)
and from the reading of its tokens (`Draft.reports_read`), each about a line of the source, or from
the check of the tree (`Node.on_of_check_eq_error`), about the line of a node; the file is added
last. What the check reports is about a line of the source too if the directives put nodes on no
other lines (`Directive.KeepsLines`), which those of a spreadsheet do not
(`Element.keepsLines_directive`).
-/

namespace SheetMarkup

/-! ## The tags of a source -/

/-- A line of a text that begins on another line. -/
def WithinText (first : Nat) (text : List Char) (line : Nat) : Prop :=
  first ≤ line ∧ line ≤ first + Text.lineFeeds text

/-- A fault inside of a tag is reported on a line of the tag. -/
theorem Lexeme.Fault.on_report (fault : Lexeme.Fault) (line : Nat) (interior : List Char) :
    (fault.report line interior).On (WithinText line interior) := by
  have part : Text.lineFeeds (interior.take fault.offset) ≤ Text.lineFeeds interior :=
    (List.take_sublist _ _).count_le _
  apply Report.on_onLine
  exact ⟨Nat.le_add_right _ _, Nat.add_le_add_left part line⟩

theorem Tag.on_of_tokens_eq_error {tag : Tag} {line : Nat} {report : Report}
    (h : tag.tokens line = .error report) : report.On (WithinText line tag.spelling) := by
  obtain ⟨fault, rfl⟩ := tag.exists_fault h
  obtain ⟨file, place, eq, low, high⟩ := fault.on_report line tag.interior
  have inner := tag.lineFeeds_interior_le
  exact ⟨file, place, eq, low, by omega⟩

/-- What is wrong with the tags of a source is reported on one of its lines. -/
theorem Cut.on_of_tokens_eq_error {source : Cut} {line : Nat} {trimming : Trimming}
    {report : Report} (h : source.tokens line trimming = .error report) :
    report.On (WithinText line source.spelling) := by
  induction source generalizing line trimming with
  | text => cases h
  | unclosed t opener rest =>
      cases h
      apply Report.on_onLine
      simp only [WithinText, spelling, Text.lineFeeds_append]
      omega
  | tag t found after ih =>
      -- the tag lies behind the text, and what follows behind the tag
      have moved : ∀ {first text}, report.On (WithinText first text) → line ≤ first →
          first + Text.lineFeeds text ≤ line + Text.lineFeeds (Cut.tag t found after).spelling →
          report.On (WithinText line (Cut.tag t found after).spelling) := by
        rintro first text ⟨file, place, eq, low, high⟩ le le'
        exact ⟨file, place, eq, by omega, by omega⟩
      rcases tokens_tag_eq_error_iff.mp h with failed | ⟨inside, -, failed⟩
      · apply moved (Tag.on_of_tokens_eq_error failed) (by omega)
        simp only [spelling, Text.lineFeeds_append]
        omega
      · apply moved (ih failed) (by omega)
        simp only [spelling, Text.lineFeeds_append]
        omega

/-! ## The check of a tree -/

namespace Node

variable {node : Node} {report : Report}

/-- What is wrong with siblings is reported on the line of one of them. -/
theorem on_of_siblingFault {texts roots : Bool} {nodes : List Node}
    (h : siblingFault texts roots nodes = some report) :
    report.On fun line => ∃ child ∈ nodes, child.line = line := by
  induction nodes generalizing texts roots with
  | nil => cases h
  | cons child nodes ih =>
      rw [siblingFault_cons] at h
      split at h
      · cases h
        exact Report.on_onLine _ ⟨child, by simp, rfl⟩
      · obtain ⟨file, line, eq, other, mem, on⟩ := ih h
        exact ⟨file, line, eq, other, by simp [mem], on⟩

/-- What is wrong with a node is reported on its line or on that of one of its children. -/
theorem on_of_fault {path : Path} (h : node.fault path = some report) :
    report.On fun line => ∃ other ∈ node :: node.children, other.line = line := by
  have siblings : siblingFault false false node.children = some report →
      report.On fun line => ∃ other ∈ node :: node.children, other.line = line := by
    intro found
    obtain ⟨file, line, eq, child, mem, on⟩ := on_of_siblingFault found
    exact ⟨file, line, eq, child, by simp [mem], on⟩
  cases node with
  | element line e parameters body =>
      simp only [fault, parentFault] at h
      split at h
      · cases h
      · split at h
        · cases h
        · cases h
          exact Report.on_onLine _ ⟨_, List.mem_cons_self, rfl⟩
  | _ => exact siblings h

/-- What the check of a tree reports is about the line of a node in the tree. -/
theorem on_of_check_eq_error {path : Path} (failed : node.check .empty = .error report path) :
    report.On fun line => ∃ o ∈ node.occurrences [], o.node.line = line := by
  rw [check_eq_findSome?] at failed
  cases found : (node.occurrences []).findSome? (Occurrence.report? .empty) with
  | none =>
      rw [found] at failed
      cases failed
  | some first =>
      rw [found] at failed
      cases failed
      obtain ⟨o, mem, fault⟩ := List.exists_of_findSome?_eq_some found
      obtain ⟨file, line, eq, other, other_mem, on⟩ := on_of_fault fault
      refine ⟨file, line, eq, ?_⟩
      rcases List.mem_cons.mp other_mem with rfl | below
      · exact ⟨o, mem, on⟩
      · exact ⟨_, child_mem_occurrences mem other below, on⟩

end Node

/-! ## Templates -/

/-- The tokens of a source are on its lines. -/
theorem withinText_of_tokenize {source : String} {tokens : List Token}
    (h : tokenize source = .ok tokens) : ∀ line ∈ tokens.map Token.line,
      WithinText 1 source.toList line := by
  intro line mem
  have climbs := Cut.climbs h
  rw [spelling_cut] at climbs
  exact climbs.mem mem

/-- A report without a file gets the one that is given. -/
theorem Report.On.orFile {P : Nat → Prop} {report : Report} (h : report.On P) (file : String) :
    (report.orFile file).file = some file ∧
      ∃ line, (report.orFile file).line = some line ∧ P line := by
  obtain ⟨none, line, eq, on⟩ := h
  refine ⟨?_, line, eq, on⟩
  simp [Located.orFile, none]

/-- What is wrong with a source that cannot be read is reported on one of its lines. -/
theorem readTemplate_eq_error {dialect : Dialect} {file source : String} {report : Report}
    (h : dialect.readTemplate file source = .error report) :
    ∃ raised : Report, report = raised.orFile file ∧ raised.On (WithinText 1 source.toList) := by
  obtain ⟨raised, rfl, failed | ⟨tokens, s, tokenized, failed⟩⟩ := readTemplate_eq_error_iff.mp h
  · have on := Cut.on_of_tokens_eq_error failed
    rw [spelling_cut] at on
    exact ⟨raised, rfl, on⟩
  · refine ⟨raised, rfl, ?_⟩
    -- what remains of the stream at its beginning are the tokens
    obtain ⟨init, last, rfl, -⟩ := (tokenize_shape tokenized).1.exists_eq_append_eof
    rw [TokenStream.ofList_append_eof] at failed
    have lines : ∀ token ∈ TokenStream.remaining ⟨init, last⟩,
        WithinText 1 source.toList token.line :=
      fun token mem => withinText_of_tokenize tokenized _ (List.mem_map_of_mem mem)
    exact Draft.reports_read _ dialect .atEnd _ _ _ lines failed

/-- If a template cannot be compiled, the report is about its file and has a line. If the source
cannot be read, that is one of its lines, of which there are as many as line feeds and one more. If
it can, a node of its tree is at fault, and the line is that of a node in the tree. Where the
directives put nodes on no other lines than those they are given, it is a line of the source in any
case. -/
theorem compile_error_located {dialect : Dialect} {file source : String} {report : Report}
    (h : dialect.compile file source = .error report) :
    report.file = some file ∧ ∃ line, report.line = some line ∧
      ((dialect.readTemplate file source = .error report ∧
          1 ≤ line ∧ line ≤ 1 + Text.lineFeeds source.toList) ∨
        ∃ template, dialect.readTemplate file source = .ok template ∧
          ∃ o ∈ template.body.occurrences [], o.node.line = line) ∧
      ((∀ name d, dialect.find? name = some d → d.KeepsLines) →
        1 ≤ line ∧ line ≤ 1 + Text.lineFeeds source.toList) := by
  unfold Dialect.compile at h
  cases read : dialect.readTemplate file source with
  | error other =>
      rw [read] at h
      cases h
      obtain ⟨raised, rfl, on⟩ := readTemplate_eq_error read
      obtain ⟨named, line, placed, within⟩ := on.orFile file
      exact ⟨named, line, placed, .inl ⟨rfl, within⟩, fun _ => within⟩
  | ok template =>
      rw [read] at h
      obtain ⟨named, -⟩ := readTemplate_eq_ok_iff.mp read
      simp only [Except.bind, Template.check] at h
      split at h
      · cases h
      · next raised path failed =>
        cases h
        rw [named]
        obtain ⟨named, line, placed, o, mem, on⟩ := (Node.on_of_check_eq_error failed).orFile file
        refine ⟨named, line, placed, .inr ⟨template, rfl, o, mem, on⟩, fun keeps => ?_⟩
        -- then all nodes are on lines of tokens, and so is the one at fault
        obtain ⟨tokens, tokenized, body, comes, eq⟩ := exists_tokens_of_readTemplate read
        have all := comes.throughout_onLineOf keeps
        rw [← eq] at all
        exact on ▸ withinText_of_tokenize tokenized _ (all.of_mem_occurrences mem).here

/-- A sheet without the index that it needs, in a workbook within a macro. -/
theorem compile_error_located_nested :
    let source := "x\n\x7b% macro m() %\x7d\n\x7b% workbook %\x7d\n\x7b% sheet %\x7d"
    ∃ report, (Dialect.spreadsheet .empty).compile "a" source = .error report ∧
      report.file = some "a" ∧ ∃ line, report.line = some line ∧ 1 ≤ line ∧
        line ≤ 1 + Text.lineFeeds source.toList := by
  intro source
  let raised : Report := ⟨.missingParameter, none, some 4⟩
  have read : (Dialect.spreadsheet .empty).readTemplate "a" source = .error (raised.orFile "a") :=
    Dialect.readTemplate_of_reportWithin 7 (by cbv) "a"
  have failed : (Dialect.spreadsheet .empty).compile "a" source = .error (raised.orFile "a") := by
    rw [Dialect.compile, read]
    rfl
  obtain ⟨named, line, placed, -, within⟩ := compile_error_located failed
  refine ⟨_, failed, named, line, placed, within fun name d found => ?_⟩
  obtain ⟨e, -, rfl⟩ := Dialect.exists_element_of_find? found
  exact e.keepsLines_directive .empty

/-- A directive that puts its nodes on line 0, a text in front of a document root, where the text is
reported. -/
theorem compile_error_located_elsewhere :
    let note : Directive :=
      { tag := "note"
        hasBody := false
        parameters := fun _ => []
        node := fun _ _ _ =>
          .list 0 [.text 0 "a", .root 0 .empty (.element 0 .workbook .empty (some (.list 0 [])))] }
    (∀ token, ((note.parameters token).map Parameter.name).Nodup) ∧
      ∃ report, (Dialect.host.register note).compile "t" "\x7b% note %\x7d" = .error report ∧
        report.line = some 0 := by
  intro note
  let made : Node :=
    .list 0 [.text 0 "a", .root 0 .empty (.element 0 .workbook .empty (some (.list 0 [])))]
  have read : (Dialect.host.register note).readTemplate "t" "\x7b% note %\x7d" =
      .ok ⟨"t", .list 1 [made]⟩ :=
    Dialect.readTemplate_of_bodyWithin 3 (by cbv) "t"
  refine ⟨fun _ => List.nodup_nil, ⟨.textBeforeRoot, some "t", some 0⟩, ?_, rfl⟩
  rw [Dialect.compile, read]
  cbv

end SheetMarkup
