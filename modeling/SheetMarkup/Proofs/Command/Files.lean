import SheetMarkup.Proofs.Command.Attributes
import SheetMarkup.Proofs.Template.Evaluation

/-!
# The files of a command line

What is found under a path is a template that compiles (`Accepted`) or it is refused with a text
that says why (`Refused`), never both. `check` goes through its paths and tells of each one which it
is, `dump` writes the outline of a template that is accepted; both follow the same verdict, which
depends on the path, on what is found under it and on the attributes alone. So the lines of `check`
follow each other in the order of the paths, and none of them depends on another file.

The main result is `run_check_dump`. The outcome of `check` is found by induction on its paths.
-/

namespace SheetMarkup.Command

/-! ## Verdicts -/

/-- The content found under a path is the source of this template. -/
def Accepted (dialect : Dialect) (path : String) (content : Content) (template : Template) : Prop :=
  ∃ source, content = .text source ∧ dialect.compile path source = .ok template

/-- The content found under a path is no template, for the reason that the text tells. -/
inductive Refused (dialect : Dialect) (path : String) : Content → String → Prop where
  | missing : Refused dialect path .missing
      ("failed to read " ++ path ++ ": No such file or directory (os error 2)")
  | notText : Refused dialect path .notText
      ("failed to read " ++ path ++ ": stream did not contain valid UTF-8")
  | reported {source : String} {report : Report} (h : dialect.compile path source = .error report) :
      Refused dialect path (.text source) report.display

section Verdict

variable {dialect : Dialect} {path : String} {content : Content}

theorem compileContent_eq_ok_iff {template : Template} :
    compileContent dialect path content = .ok template ↔
      Accepted dialect path content template := by
  constructor
  · intro compiled
    cases content with
    | missing | notText => cases compiled
    | text source =>
        refine ⟨source, rfl, ?_⟩
        cases read : dialect.compile path source with
        | ok found =>
            simp only [compileContent, read] at compiled
            exact congrArg Except.ok (Except.ok.inj compiled)
        | error report => simp only [compileContent, read, reduceCtorEq] at compiled
  · rintro ⟨source, rfl, read⟩
    simp only [compileContent, read]

theorem compileContent_eq_error_iff {text : String} :
    compileContent dialect path content = .error text ↔ Refused dialect path content text := by
  constructor
  · intro failed
    cases content with
    | missing => cases failed; exact .missing
    | notText => cases failed; exact .notText
    | text source =>
        cases read : dialect.compile path source with
        | ok found => simp only [compileContent, read, reduceCtorEq] at failed
        | error report =>
            simp only [compileContent, read, Except.error.injEq] at failed
            exact failed ▸ .reported read
  · rintro (_ | _ | read)
    · rfl
    · rfl
    · simp only [compileContent, read]

end Verdict

/-! ## The lines of a check -/

/-- The line that tells of a path that it is accepted. -/
def acceptedLine? (path : String) : Except String Template → Option String
  | .ok _ => some ("ok: " ++ path ++ "\n")
  | .error _ => none

/-- The line that tells why a path is refused. -/
def refusedLine? : Except String Template → Option String
  | .ok _ => none
  | .error text => some (text ++ "\n")

@[simp] theorem Outcome.empty_andThen (outcome : Outcome) :
    (⟨0, "", ""⟩ : Outcome).andThen outcome = outcome := by
  simp [Outcome.andThen]

theorem Outcome.andThen_assoc (a b c : Outcome) :
    (a.andThen b).andThen c = a.andThen (b.andThen c) := by
  simp [Outcome.andThen, Nat.max_assoc, String.append_assoc]

section Check

variable {dialect : Dialect} {files : String → Content}

theorem run_check_cons (path : String) (paths : List String) :
    (Action.check (path :: paths)).run dialect files =
      (Outcome.ofCheck path (compileContent dialect path (files path))).andThen
        ((Action.check paths).run dialect files) := rfl

theorem run_dump (path : String) :
    (Action.dump path).run dialect files =
      .ofDump (compileContent dialect path (files path)) := rfl

/-- Checking paths and then others is checking all of them. -/
theorem run_check_append (before after : List String) :
    (Action.check (before ++ after)).run dialect files =
      ((Action.check before).run dialect files).andThen
        ((Action.check after).run dialect files) := by
  induction before with
  | nil => exact (Outcome.empty_andThen _).symm
  | cons path before ih =>
      rw [List.cons_append, run_check_cons, run_check_cons, ih, Outcome.andThen_assoc]

/-- `check` writes the lines of its paths in order; it succeeds if every path is accepted. -/
theorem run_check (paths : List String) :
    ∃ status, (Action.check paths).run dialect files =
        ⟨status,
          String.join (paths.filterMap fun path =>
            acceptedLine? path (compileContent dialect path (files path))),
          String.join (paths.filterMap fun path =>
            refusedLine? (compileContent dialect path (files path)))⟩ ∧
      status ≤ 1 ∧
      (status = 0 ↔ ∀ path ∈ paths, ∃ template,
        compileContent dialect path (files path) = .ok template) := by
  induction paths with
  | nil => exact ⟨0, rfl, by simp⟩
  | cons path paths ih =>
      obtain ⟨status, outcome, bound, ok⟩ := ih
      rw [run_check_cons, outcome]
      cases verdict : compileContent dialect path (files path) with
      | ok template =>
          refine ⟨status, ?_, bound, ?_⟩
          · rw [List.filterMap_cons_some (by rw [verdict]; rfl),
              List.filterMap_cons_none (by rw [verdict]; rfl), String.join_cons]
            simp [Outcome.andThen, Outcome.ofCheck]
          · rw [ok, List.forall_mem_cons]
            exact ⟨fun rest => ⟨⟨template, verdict⟩, rest⟩, And.right⟩
      | error text =>
          refine ⟨1, ?_, le_rfl, ?_⟩
          · rw [List.filterMap_cons_none (by rw [verdict]; rfl),
              List.filterMap_cons_some (by rw [verdict]; rfl), String.join_cons]
            simp [Outcome.andThen, Outcome.ofCheck, bound]
          · -- the path itself is refused
            constructor
            · intro zero
              cases zero
            · intro all
              obtain ⟨template, compiled⟩ := all path List.mem_cons_self
              cases verdict.symm.trans compiled

/-- What is found under the other paths does not matter to one of them. -/
theorem run_check_around {other : String → Content} {path : String} (h : other path = files path)
    (before after : List String) :
    (Action.check (before ++ path :: after)).run dialect other =
      ((Action.check before).run dialect other).andThen
        (((Action.check [path]).run dialect files).andThen
          ((Action.check after).run dialect other)) := by
  have alone : (Action.check [path]).run dialect other =
      (Action.check [path]).run dialect files := by
    rw [run_check_cons, run_check_cons, h]
    rfl
  rw [← alone, ← run_check_append, ← run_check_append, List.singleton_append]

end Check

/-! ## The two commands -/

/-- If all attribute arguments have an equals sign, there is one verdict on every path and what is
found under it. `check` writes a line for every path, in the order of the paths: on the output if
the path is accepted, and with the reason among the errors if it is refused. It ends with 0 if all
paths are accepted, and else with 1. A path is told of in the same way whatever is found under the
others. `dump` ends with 0 and writes the outline of the template if its path is accepted; else it
ends with 1 and writes the same reason. -/
theorem run_check_dump {attributes : List String}
    (written : ∀ argument ∈ attributes, '=' ∈ argument.toList) :
    ∃ map, readAttributes attributes = .ok map ∧
      ∃ verdict : String → Content → Except String Template,
        (∀ path content,
          (∀ template, verdict path content = .ok template ↔
            Accepted (.spreadsheet map) path content template) ∧
          ∀ text, verdict path content = .error text ↔
            Refused (.spreadsheet map) path content text) ∧
        ∀ files : String → Content,
          (∀ paths, ∃ status,
            (⟨attributes, .check paths⟩ : Invocation).run files =
              ⟨status,
                String.join (paths.filterMap fun path =>
                  acceptedLine? path (verdict path (files path))),
                String.join (paths.filterMap fun path =>
                  refusedLine? (verdict path (files path)))⟩ ∧
            status ≤ 1 ∧
            (status = 0 ↔ ∀ path ∈ paths, ∃ template, verdict path (files path) = .ok template)) ∧
          (∀ path other, other path = files path → ∀ before after,
            (⟨attributes, .check (before ++ path :: after)⟩ : Invocation).run other =
              ((⟨attributes, .check before⟩ : Invocation).run other).andThen
                (((⟨attributes, .check [path]⟩ : Invocation).run files).andThen
                  ((⟨attributes, .check after⟩ : Invocation).run other))) ∧
          ∀ path,
            (∀ template, verdict path (files path) = .ok template →
              (⟨attributes, .dump path⟩ : Invocation).run files = ⟨0, template.outline, ""⟩) ∧
            ∀ text, verdict path (files path) = .error text →
              (⟨attributes, .dump path⟩ : Invocation).run files =
                ⟨1, "", "error: " ++ text ++ "\n"⟩ := by
  obtain ⟨map, read, -⟩ := exists_collected written
  refine ⟨map, read, compileContent (.spreadsheet map), ?_, ?_⟩
  · intro path content
    exact ⟨fun _ => compileContent_eq_ok_iff, fun _ => compileContent_eq_error_iff⟩
  intro files
  -- with the attributes read, the action is all that is run
  have runs : ∀ action found, (⟨attributes, action⟩ : Invocation).run found =
      action.run (.spreadsheet map) found := by
    intro action found
    rw [Invocation.run, Invocation.runWith, read]
    rfl
  simp only [runs]
  refine ⟨fun paths => run_check paths, ?_, ?_⟩
  · intro path other same before after
    exact run_check_around same before after
  · intro path
    constructor
    · intro template compiled
      rw [run_dump, compiled]
      rfl
    · intro text failed
      rw [run_dump, failed]
      rfl

/-- A file that is missing, one that is no text and one that is not closed, beside one that
compiles. -/
theorem run_check_dump_mixed :
    let files : String → Content
      | "binary" => .notText
      | "open" => .text "a\n\x7b%"
      | "plain" => .text "a"
      | _ => .missing
    (⟨["lang=en"], .check ["binary", "plain", "open", "none"]⟩ : Invocation).run files =
        ⟨1, "ok: plain\n",
          "failed to read binary: stream did not contain valid UTF-8\n" ++
          "open:2: Unclosed \"block\"\n" ++
          "failed to read none: No such file or directory (os error 2)\n"⟩ ∧
      (⟨["lang=en"], .dump "open"⟩ : Invocation).run files =
        ⟨1, "", "error: open:2: Unclosed \"block\"\n"⟩ ∧
      (⟨["lang=en"], .dump "plain"⟩ : Invocation).run files =
        ⟨0, "list @1\n  text @1 \"a\"\n", ""⟩ := by
  intro files
  obtain ⟨map, -, verdict, judges, runs⟩ :=
    @run_check_dump ["lang=en"] (by decide)
  let plain : Template := ⟨"plain", .list 1 [.text 1 "a"]⟩
  let unclosed : Report := ⟨.unclosed (.tag .block), none, some 2⟩
  have binary : verdict "binary" (files "binary") = .error
      "failed to read binary: stream did not contain valid UTF-8" :=
    ((judges _ _).2 _).mpr .notText
  have missing : verdict "none" (files "none") = .error
      "failed to read none: No such file or directory (os error 2)" :=
    ((judges _ _).2 _).mpr .missing
  have accepted : verdict "plain" (files "plain") = .ok plain := by
    refine ((judges _ _).1 plain).mpr ⟨"a", rfl, ?_⟩
    have read : (Dialect.spreadsheet .empty).readTemplate "plain" "a" = .ok plain :=
      Dialect.readTemplate_of_bodyWithin 2 (by cbv) "plain"
    rw [Dialect.compile_spreadsheet, Dialect.compile, read]
    cbv
  have refused : verdict "open" (files "open") = .error "open:2: Unclosed \"block\"" := by
    have number : Text.decimal 2 = ['2'] := by cbv
    have place : (unclosed.orFile "open").place =
        "open" ++ ":" ++ String.ofList (Text.decimal 2) ++ ": " := rfl
    have display : Report.display (unclosed.orFile "open") = "open:2: Unclosed \"block\"" := by
      rw [Report.display, Located.display, place, number]
      rfl
    rw [← display]
    refine ((judges _ _).2 _).mpr (.reported ?_)
    have read : (Dialect.spreadsheet .empty).readTemplate "open" "a\n\x7b%" =
        .error (unclosed.orFile "open") :=
      Dialect.readTemplate_of_reportWithin 1 (by cbv) "open"
    rw [Dialect.compile_spreadsheet, Dialect.compile, read]
    rfl
  obtain ⟨checks, -, dumps⟩ := runs files
  refine ⟨?_, (dumps "open").2 _ refused, ?_⟩
  · obtain ⟨status, outcome, bound, zero⟩ := checks ["binary", "plain", "open", "none"]
    have one : status = 1 := by
      have ne : status ≠ 0 := by
        intro eq
        obtain ⟨template, found⟩ := zero.mp eq "none" (by simp)
        cases missing.symm.trans found
      omega
    rw [outcome, one]
    simp [binary, missing, accepted, refused, acceptedLine?, refusedLine?]
  · rw [(dumps "plain").1 plain accepted]
    cbv

end SheetMarkup.Command
