import Mathlib
import SheetMarkup.Proofs.Template.Boundaries
import SheetMarkup.Proofs.Template.Evaluation

/-!
# Whose parameters are at fault

The expressions in the tag of a directive are bound to its parameters as soon as the tag ends,
before its body is read. So what is reported about parameters is about the first directive tag of
the source whose expressions cannot be bound, however deep it stands, and the report is about the
line of its name (`readTemplate_binding_error`).

The directive tags of a source are found in its tokens by the names alone (`Dialect.directiveTags`):
a block tag is one of them if its name is that of a directive and ends no body that is open. Every
construct that is read takes those of its tokens off, and all of them are bound
(`Draft.Takes.directiveTags`).
-/

namespace SheetMarkup

open Reading
open Token (kinds)

/-! ## What is wrong with parameters -/

/-- The causes that say that expressions cannot be bound to parameters. -/
def Cause.IsBinding : Cause → Prop
  | .missingParameter | .tooManyParameters => True
  | _ => False

/-- A text that begins with this letter. -/
def BeginsWith (initial : Char) (text : String) : Prop := text.toList.head? = some initial

theorem BeginsWith.append {initial : Char} {a : String} (h : BeginsWith initial a) (b : String) :
    BeginsWith initial (a ++ b) := by
  rw [BeginsWith, String.toList_append, List.head?_append_of_ne_nil]
  · exact h
  · intro nil
    rw [BeginsWith, nil] at h
    cases h

/-- Nothing else is reported in these words. -/
theorem Cause.isBinding_of_message {cause : Cause}
    (h : cause.message ∈ ["A required parameter is missing", "Too many parameters"]) :
    cause.IsBinding := by
  have unlike : ∀ initial ∉ ['A', 'T'], ¬ BeginsWith initial cause.message := by
    intro initial other begins
    have same : cause.message.toList.head? ∈ [some 'A', some 'T'] := by
      rcases List.mem_pair.mp h with words | words
      · rw [words]; decide
      · rw [words]; decide
    rw [show cause.message.toList.head? = some initial from begins] at same
    exact other (by simpa using same)
  -- all other reports begin with other letters, but for one
  cases cause with
  | missingParameter | tooManyParameters => trivial
  | namelessTag => exact absurd h (by decide)
  | unclosed opener =>
      refine (unlike 'U' (by decide) ?_).elim
      cases opener with
      | tag form => exact .append (.append (by rfl) _) _
      | comment => rfl
  | endOfTemplate => exact (unlike 'U' (by decide) rfl).elim
  | strayToken | unexpectedTag | unknownTag =>
      exact (unlike 'U' (by decide) (.append (.append (by rfl) _) _)).elim
  | otherToken =>
      exact (unlike 'U' (by decide) (.append (.append (.append (.append (by rfl) _) _) _) _)).elim
  | refusedChar | refusedToken | unknownOperator | surrogateCode =>
      exact (unlike 'f' (by decide) (.append (.append (by rfl) _) _)).elim
  | declaredTwice => exact (unlike 'p' (by decide) (.append (.append (by rfl) _) _)).elim
  | misplacedElement =>
      exact (unlike 'N' (by decide) (.append (.append (.append (.append (by rfl) _) _) _) _)).elim
  | textAfterRoot | textBeforeRoot => exact (unlike 'N' (by decide) rfl).elim

/-- The tokens of a directive's tag behind its name, and why they cannot be bound. -/
def Directive.Refuses (directive : Directive) (name : Token) (row : List Token)
    (cause : Cause) : Prop :=
  ∃ schema es, Schema.ofList (directive.parameters name) = .ok schema ∧ ExpressionRow row es ∧
    schema.bind es = .error cause

/-- The tag of a directive whose expressions cannot be bound, and what is reported about it. -/
structure Directive.RefusedTag (dialect : Dialect) (line : Nat) (name : String) (row : List Token)
    (directive : Directive) (report : Report) : Prop where
  foreign : name ∉ ["if", "for", "macro"]
  found : dialect.find? name = some directive
  refuses : directive.Refuses ⟨.name name, line⟩ row report.cause
  placed : report = .onLine report.cause line

theorem Directive.RefusedTag.isInner {dialect : Dialect} {line : Nat} {name : String}
    {row : List Token} {directive : Directive} {report : Report}
    (h : RefusedTag dialect line name row directive report) :
    ∀ token ∈ row, token.kind.IsInner := by
  obtain ⟨_, _, -, items, -⟩ := h.refuses
  exact items.isInner

/-- A report that is not about the parameters of a directive. -/
def Report.Unbound (report : Report) : Prop := ¬ report.cause.IsBinding

theorem Report.coversTokens_unbound :
    Report.CoversTokens (fun _ => True) Report.Unbound where
  onLine := by
    intro cause line token _
    cases cause <;> simp_all [Cause.AtToken, Report.Unbound, Cause.IsBinding, Located.onLine]

/-- What is wrong with the tags of a source is wrong with no parameters. -/
theorem Cut.unbound_of_tokens {source : Cut} {line : Nat} {trimming : Trimming} {report : Report}
    (h : source.tokens line trimming = .error report) : report.Unbound := by
  induction source generalizing line trimming with
  | text => cases h
  | unclosed t opener rest =>
      cases h
      exact id
  | tag t found after ih =>
      rcases tokens_tag_eq_error_iff.mp h with failed | ⟨inside, -, failed⟩
      · obtain ⟨fault, rfl⟩ := found.exists_fault failed
        cases fault <;> exact id
      · exact ih failed

/-! ## Where it is reported -/

section Failures

variable {s s' : TokenStream} {report : Report}

/-- A reading that reports nothing about parameters reports nothing about them here. -/
theorem Reading.Reports.not_isBinding {α : Type} {r : Reading α}
    (h : Reports (fun _ => True) Report.Unbound r) (failed : r s = .error report s') :
    ¬ report.cause.IsBinding :=
  h s report s' (fun _ _ => trivial) failed

/-- Expressions that cannot be bound stand in a tag that is complete. -/
theorem Directive.readParameters_eq_error {directive : Directive} {name : Token}
    (failed : directive.readParameters name s = .error report s')
    (binding : report.cause.IsBinding) :
    ∃ row closed, s = s'.prepend (row ++ [⟨.closing .block, closed⟩]) ∧
      directive.Refuses name row report.cause ∧ report = .unplaced report.cause := by
  have tokens := Report.coversTokens_unbound
  rcases bind_eq_error_iff.mp failed with declaring | ⟨schema, _, first, behind⟩
  · -- a name that is declared twice is something else
    obtain ⟨cause, twice, rfl, -⟩ := ofExcept_eq_error_iff.mp declaring
    obtain ⟨name, rfl⟩ := Schema.exists_eq_declaredTwice twice
    exact binding.elim
  obtain ⟨declared, rfl⟩ := ofExcept_eq_ok_iff.mp first
  rcases bind_eq_error_iff.mp behind with splitting | ⟨es, _, second, behind⟩
  · have expressions : Reports (fun _ => True) Report.Unbound
        (collect (.closing .block) expressionItem expressionItem) :=
      .collect .expression .expression (.expression tokens) (.expression tokens)
    exact absurd binding (expressions.not_isBinding splitting)
  rcases bind_eq_error_iff.mp behind with closing | ⟨_, _, third, last⟩
  · exact absurd binding ((Draft.reports_endBlock tokens).not_isBinding closing)
  obtain ⟨row, rfl, items, -⟩ := collect_expressions_eq_ok_iff.mp second
  obtain ⟨closed, rfl⟩ := endBlock_eq_ok_iff.mp third
  obtain ⟨cause, refused, rfl, rfl⟩ := ofExcept_eq_error_iff.mp last
  exact ⟨row, closed, (TokenStream.prepend_append _ _ _).symm,
    ⟨schema, es, declared, items, refused⟩, rfl⟩

namespace Draft

variable {draft : Draft} {dialect : Dialect} {line : Nat} {name : String}

/-- Only the tag of a directive is reported for its parameters, on the line of its name. -/
theorem openTag_eq_error (failed : draft.openTag dialect line name s = .error report s')
    (binding : report.cause.IsBinding) :
    ∃ row closed directive, s = s'.prepend (row ++ [⟨.closing .block, closed⟩]) ∧
      Directive.RefusedTag dialect line name row directive report := by
  have tokens := Report.coversTokens_unbound
  unfold openTag at failed
  by_cases isIf : name = "if"
  · rw [if_pos isIf] at failed
    exact absurd binding ((reports_openChoice tokens _ _).not_isBinding failed)
  by_cases isFor : name = "for"
  · rw [if_neg isIf, if_pos isFor] at failed
    exact absurd binding ((reports_openLoop tokens _ _).not_isBinding failed)
  by_cases isMacro : name = "macro"
  · rw [if_neg isIf, if_neg isFor, if_pos isMacro] at failed
    exact absurd binding ((reports_openDefinition tokens _ _).not_isBinding failed)
  rw [if_neg isIf, if_neg isFor, if_neg isMacro] at failed
  cases found : dialect.find? name with
  | none =>
      rw [found] at failed
      cases failed
      have unbound : Report.Unbound (.onLine _ line) :=
        tokens.onLine (atToken_foreignTag name) trivial
      exact absurd binding unbound
  | some directive =>
      rw [found] at failed
      -- behind the parameters nothing can fail any more
      rcases bind_eq_error_iff.mp failed with parameters | ⟨_, _, -, entering⟩
      · obtain ⟨inner, reading, rfl⟩ := orLine_eq_error_iff.mp parameters
        obtain ⟨row, closed, rfl, refuses, unplaced⟩ :=
          Directive.readParameters_eq_error reading binding
        refine ⟨row, closed, directive, rfl, by simp [isIf, isFor, isMacro], found, refuses, ?_⟩
        rw [unplaced]
        rfl
      · split at entering <;> cases entering

/-- The names of the tags that end the bodies which are open, innermost first. -/
def ends (draft : Draft) : List (List String) := draft.enclosing.map fun entry => entry.1.ends

/-- In a whole template a tag ends something only if it ends the innermost body that is open. -/
theorem endsAt_atEnd_iff : draft.EndsAt .atEnd line name ↔ name ∈ draft.ends.headD [] := by
  obtain ⟨body, enclosing⟩ := draft
  cases enclosing with
  | nil => simp [EndsAt, Bound.stopsAt, ends]
  | cons first enclosing => rfl

theorem readBlock_eq_error (failed : draft.readBlock dialect .atEnd s = .error report s')
    (binding : report.cause.IsBinding) :
    ∃ line name row closed directive,
      s = s'.prepend (⟨.name name, line⟩ :: row ++ [⟨.closing .block, closed⟩]) ∧
        ¬ draft.EndsAt .atEnd line name ∧
        Directive.RefusedTag dialect line name row directive report := by
  have tokens := Report.coversTokens_unbound
  cases kind : s.current.kind with
  | name name =>
      obtain ⟨line, t, rfl⟩ := TokenStream.exists_eq_prepend kind nofun
      by_cases ends : draft.EndsAt .atEnd line name
      · -- the tag that is closed has no parameters
        obtain ⟨tag, outer, enclosing, around, inEnds⟩ := ends.within_of_atEnd
        rw [readBlock_of_mem_ends [] around inEnds, map_eq_error_iff] at failed
        exact absurd binding ((reports_closeTag tokens _ _ _ _ _).not_isBinding failed)
      · rw [readBlock_of_not_endsAt [] ends, map_eq_error_iff] at failed
        obtain ⟨row, closed, directive, rest, refused⟩ := openTag_eq_error failed binding
        obtain rfl : t = _ := rest
        exact ⟨line, name, row, closed, directive, rfl, ends, refused⟩
  | _ =>
      simp only [readBlock, bind, EStateM.bind, current, kind] at failed
      cases failed
      exact binding.elim

/-- A construct is reported for parameters only if it is the tag of a directive. -/
theorem step_eq_error (failed : draft.step dialect .atEnd s = .error report s')
    (binding : report.cause.IsBinding) :
    ∃ opened line name row closed directive,
      s = s'.prepend (blockTag opened line name row closed) ∧ ¬ draft.EndsAt .atEnd line name ∧
        Directive.RefusedTag dialect line name row directive report := by
  have tokens := Report.coversTokens_unbound
  cases kind : s.current.kind with
  | text value =>
      rw [step_of_text kind] at failed
      cases failed
  | eof =>
      simp only [step, kind] at failed
      split at failed
      · cases failed
      · cases failed
        exact binding.elim
  | opening form =>
      obtain ⟨opened, t, rfl⟩ := TokenStream.exists_eq_prepend kind (by simp)
      cases form with
      | output =>
          rw [step_output, map_eq_error_iff] at failed
          exact absurd binding ((reports_readOutput tokens _ _).not_isBinding failed)
      -- only here are parameters read
      | block =>
          rw [step_block] at failed
          obtain ⟨line, name, row, closed, directive, rest, passes, refused⟩ :=
            readBlock_eq_error failed binding
          obtain rfl : t = _ := rest
          exact ⟨opened, line, name, row, closed, directive, rfl, passes, refused⟩
  | _ =>
      simp only [step, kind] at failed
      cases failed
      exact binding.elim

end Draft

end Failures

/-! ## The directive tags of a source -/

/-- A block tag that is read as a directive: the token of its name, the directive, and what stands
behind the name up to the closer. -/
structure DirectiveTag where
  name : Token
  directive : Directive
  row : List Token

namespace DirectiveTag

/-- The expressions in the tag are bound to the parameters of its directive. -/
def Bound (tag : DirectiveTag) : Prop :=
  ∃ parameters, tag.directive.Parameters tag.name tag.row parameters

end DirectiveTag

namespace Dialect

variable (dialect : Dialect)

/-- The directive tag with a name, if the name is that of a directive. -/
def directiveTag? (line : Nat) (name : String) (behind : List Token) : Option DirectiveTag :=
  if name ∈ ["if", "for", "macro"] then none
  else (dialect.find? name).map fun directive =>
    ⟨⟨.name name, line⟩, directive, behind.takeWhile fun token => token.kind ≠ .closing .block⟩

/-- The body that a tag with this name opens, if it opens one: the names of the tags that end it. -/
def opens (name : String) : List (List String) :=
  if name = "if" then [["else", "endif"]]
  else if name = "for" then [["endfor"]]
  else if name = "macro" then [["endmacro"]]
  else ((dialect.find? name).filter Directive.hasBody).toList.map fun directive =>
    [directive.endTag]

/-- The directive tags among some tokens, where bodies with these end tags are open, innermost
first. A block tag that ends the innermost body is none of them; `else` begins another body. -/
def directiveTags : List (List String) → List Token → List DirectiveTag
  | _, [] => []
  | ends, ⟨.opening .block, _⟩ :: ⟨.name name, line⟩ :: rest =>
    if name ∈ ends.headD [] then
      directiveTags (if name = "else" then ["endif"] :: ends.tail else ends.tail) rest
    else
      (dialect.directiveTag? line name rest).toList ++
        directiveTags (dialect.opens name ++ ends) rest
  | ends, _ :: rest => directiveTags ends rest

variable {dialect}

/-- The tag of a directive opens a body if the directive has one. -/
theorem opens_directive {name : String} {directive : Directive}
    (foreign : name ∉ ["if", "for", "macro"]) (found : dialect.find? name = some directive) :
    dialect.opens name = if directive.hasBody then [[directive.endTag]] else [] := by
  simp only [List.mem_cons, List.not_mem_nil, or_false, not_or] at foreign
  cases body : directive.hasBody <;> simp [opens, foreign, found, body]

/-- The rest of a tag holds no other tag. -/
theorem directiveTags_closing {row : List Token} (inner : ∀ token ∈ row, token.kind.IsInner)
    (ends : List (List String)) (form : TagForm) (line : Nat) (rest : List Token) :
    dialect.directiveTags ends (row ++ ⟨.closing form, line⟩ :: rest) =
      dialect.directiveTags ends rest := by
  refine scan_closing ?_ inner form line rest
  rintro ⟨kind, start⟩ rest inside
  cases kind with
  | text | opening | eof => simp [Token.Kind.IsInner] at inside
  | _ =>
      rw [directiveTags]
      simp

/-- What stands behind the name of a tag ends with the closer. -/
theorem directiveTag?_closing {row : List Token} (inner : ∀ token ∈ row, token.kind.IsInner)
    {name : String} {directive : Directive} (foreign : name ∉ ["if", "for", "macro"])
    (found : dialect.find? name = some directive) (line closed : Nat) (rest : List Token) :
    dialect.directiveTag? line name (row ++ ⟨.closing .block, closed⟩ :: rest) =
      some ⟨⟨.name name, line⟩, directive, row⟩ := by
  have whole : (row ++ ⟨.closing .block, closed⟩ :: rest).takeWhile
      (fun token => decide (token.kind ≠ .closing .block)) = row := by
    refine (takeWhile_append_stop ?_ (by simp)).1
    intro token mem
    exact decide_eq_true ((inner token mem).ne_closing .block)
  rw [directiveTag?, if_neg foreign, found, Option.map_some, whole]

/-- A block tag that ends no body gives its own directive tag, if it is one, and opens its body. -/
theorem directiveTags_blockTag {row : List Token} (inner : ∀ token ∈ row, token.kind.IsInner)
    {name : String} {ends : List (List String)} (passes : name ∉ ends.headD [])
    (opened line closed : Nat) (rest : List Token) :
    dialect.directiveTags ends (Draft.blockTag opened line name row closed ++ rest) =
      (dialect.directiveTag? line name (row ++ ⟨.closing .block, closed⟩ :: rest)).toList ++
        dialect.directiveTags (dialect.opens name ++ ends) rest := by
  have whole : Draft.blockTag opened line name row closed ++ rest =
      ⟨.opening .block, opened⟩ :: ⟨.name name, line⟩ ::
        (row ++ ⟨.closing .block, closed⟩ :: rest) := by
    simp [Draft.blockTag]
  rw [whole, directiveTags, if_neg passes, directiveTags_closing inner]

/-- A block tag that ends a body gives none. -/
theorem directiveTags_ending {name : String} {ends : List (List String)}
    (stops : name ∈ ends.headD []) (opened line closed : Nat) (rest : List Token) :
    dialect.directiveTags ends (Draft.blockTag opened line name [] closed ++ rest) =
      dialect.directiveTags (if name = "else" then ["endif"] :: ends.tail else ends.tail) rest := by
  have whole : Draft.blockTag opened line name [] closed ++ rest =
      ⟨.opening .block, opened⟩ :: ⟨.name name, line⟩ ::
        ([] ++ ⟨.closing .block, closed⟩ :: rest) :=
    rfl
  rw [whole, directiveTags, if_pos stops, directiveTags_closing (by simp)]

end Dialect

/-! ## The first tag that cannot be bound -/

namespace Opening

variable {dialect : Dialect} {line : Nat} {name : String} {row : List Token} {tag : OpenTag}

theorem opens_eq (h : Opening dialect line name row tag) : dialect.opens name = [tag.ends] := by
  cases h with
  | choice | loop | definition => rfl
  | directive foreign found body _ =>
      rw [Dialect.opens_directive foreign found, if_pos body]
      rfl

/-- A tag that is opened as a directive has been bound. -/
theorem bound_of_mem (h : Opening dialect line name row tag) (closed : Nat) (rest : List Token) :
    ∀ found ∈ (dialect.directiveTag? line name (row ++ ⟨.closing .block, closed⟩ :: rest)).toList,
      found.Bound := by
  have inner := h.isInner
  cases h with
  | choice | loop | definition => simp [Dialect.directiveTag?]
  | directive foreign found body bound =>
      rw [Dialect.directiveTag?_closing inner foreign found]
      simpa using ⟨_, bound⟩

end Opening

namespace Draft

variable {dialect : Dialect} {draft draft' : Draft}

/-- A construct takes the directive tags of its tokens off, and they are bound. -/
theorem Takes.directiveTags {next : Nat} {taken : List Token}
    (takes : draft.Takes dialect .atEnd next taken draft') (rest : List Token) :
    ∃ tags : List DirectiveTag, (∀ tag ∈ tags, tag.Bound) ∧
      dialect.directiveTags draft.ends (taken ++ rest) =
        tags ++ dialect.directiveTags draft'.ends rest := by
  -- only a tag that ends nothing can be that of a directive
  cases takes with
  | text value line =>
      refine ⟨[], by simp, ?_⟩
      rw [List.singleton_append, Dialect.directiveTags] <;> simp [ends, push]
  | @output row e line closed derived =>
      refine ⟨[], by simp, ?_⟩
      rw [List.append_assoc, List.cons_append, Dialect.directiveTags]
      · exact Dialect.directiveTags_closing derived.isInner _ .output closed rest
      · simp
  | @opening row name line tag opened closed passes opening =>
      have inner := opening.isInner
      refine ⟨_, opening.bound_of_mem closed rest, ?_⟩
      rw [Dialect.directiveTags_blockTag inner (mt endsAt_atEnd_iff.mpr passes), opening.opens_eq]
      rfl
  | @lone row name d parameters opened line closed passes foreign found noBody bound =>
      have inner := bound.isInner
      have tag := Dialect.directiveTag?_closing inner foreign found line closed rest
      have opens : dialect.opens name = [] := by
        rw [Dialect.opens_directive foreign found, if_neg noBody]
      refine ⟨[⟨⟨.name name, line⟩, d, row⟩], by simpa using ⟨_, bound⟩, ?_⟩
      rw [Dialect.directiveTags_blockTag inner (mt endsAt_atEnd_iff.mpr passes), tag, opens]
      rfl
  | @alternative condition outer enclosing start opened line closed around =>
      have open_ends : draft.ends =
          ["else", "endif"] :: enclosing.map fun entry => entry.1.ends := by
        rw [ends, around]
        rfl
      refine ⟨[], by simp, ?_⟩
      rw [open_ends, Dialect.directiveTags_ending (by simp)]
      rfl
  | @close tag outer enclosing name opened line closed around ending other =>
      have open_ends : draft.ends = tag.ends :: enclosing.map fun entry => entry.1.ends := by
        rw [ends, around]
        rfl
      refine ⟨[], by simp, ?_⟩
      rw [open_ends, Dialect.directiveTags_ending ending, if_neg other]
      rfl

/-- Wherever the reading of a template stands, all directive tags before are bound. -/
theorem Reached.directiveTags {tokens : List Token} {s : TokenStream} (whole : Segments tokens)
    (reached : Reached dialect tokens draft s) :
    ∃ before : List DirectiveTag, (∀ tag ∈ before, tag.Bound) ∧
      dialect.directiveTags [] tokens = before ++ dialect.directiveTags draft.ends s.remaining := by
  induction reached with
  | start =>
      obtain ⟨init, line, rfl, -⟩ := whole.exists_eq_append_eof
      refine ⟨[], by simp, ?_⟩
      rw [TokenStream.ofList_append_eof]
      rfl
  | step _ step ih =>
      obtain ⟨before, bound, found⟩ := ih
      obtain ⟨taken, rfl, takes⟩ := takes_of_step step
      obtain ⟨tags, bound', found'⟩ := takes.directiveTags (TokenStream.remaining _)
      refine ⟨before ++ tags, ?_, ?_⟩
      · intro tag mem
        rcases List.mem_append.mp mem with mem | mem
        · exact bound tag mem
        · exact bound' tag mem
      · rw [found, TokenStream.remaining_prepend, found', List.append_assoc]

end Draft

/-- If a template is reported for the parameters of a directive, the report is about the first
directive tag of the source whose expressions cannot be bound, and on the line of its name. All
directive tags before are bound. -/
theorem readTemplate_binding_error {dialect : Dialect} {file source : String} {report : Report}
    (failed : dialect.readTemplate file source = .error report)
    (words : report.cause.message ∈ ["A required parameter is missing", "Too many parameters"]) :
    ∃ tokens before tag after, tokenize source = .ok tokens ∧
      dialect.directiveTags [] tokens = before ++ tag :: after ∧
      (∀ earlier ∈ before, earlier.Bound) ∧
      tag.directive.Refuses tag.name tag.row report.cause ∧
      report = ⟨report.cause, some file, some tag.name.line⟩ := by
  have binding := Cause.isBinding_of_message words
  obtain ⟨raised, rfl, tokenizing | ⟨tokens, s', tokenized, read⟩⟩ :=
    readTemplate_eq_error_iff.mp failed
  · have unbound := Cut.unbound_of_tokens tokenizing
    exact absurd binding unbound
  have begun : Draft.Reached dialect tokens _ _ := .start
  rw [begun.readBody_eq] at read
  obtain ⟨draft, s, reached, failing⟩ := begun.exists_step_eq_error read
  obtain ⟨before, bound, found⟩ := reached.directiveTags (tokenize_shape tokenized).1
  obtain ⟨opened, line, name, row, closed, directive, rfl, passes, refused⟩ :=
    Draft.step_eq_error failing binding
  have inner := refused.isInner
  -- the construct that failed is the next directive tag
  rw [TokenStream.remaining_prepend, Dialect.directiveTags_blockTag inner
    (mt Draft.endsAt_atEnd_iff.mpr passes),
    Dialect.directiveTag?_closing inner refused.foreign refused.found] at found
  refine ⟨tokens, before, ⟨⟨.name name, line⟩, directive, row⟩, _, tokenized, found, bound,
    refused.refuses, ?_⟩
  rw [refused.placed]
  rfl

/-- A sheet without the index that it needs, in a workbook that is not closed, behind a sheet that
has it. -/
theorem readTemplate_binding_error_sheet :
    let source := "\x7b%workbook%\x7d\n\x7b%sheet 1%\x7d\n\x7b%endsheet%\x7d" ++
      "\x7b%sheet []%\x7d"
    (Dialect.spreadsheet .empty).readTemplate "a" source =
        .error ⟨.missingParameter, some "a", some 3⟩ ∧
      ∃ tokens before tag after, tokenize source = .ok tokens ∧
        (Dialect.spreadsheet .empty).directiveTags [] tokens = before ++ tag :: after ∧
        (∀ earlier ∈ before, earlier.Bound) ∧
        tag.directive.Refuses tag.name tag.row .missingParameter ∧ tag.name.line = 3 := by
  intro source
  let raised : Report := ⟨.missingParameter, none, some 3⟩
  have failed : (Dialect.spreadsheet .empty).readTemplate "a" source =
      .error (raised.orFile "a") :=
    Dialect.readTemplate_of_reportWithin 5 (by cbv) "a"
  obtain ⟨tokens, before, tag, after, tokenized, found, bound, refuses, placed⟩ :=
    readTemplate_binding_error failed List.mem_cons_self
  refine ⟨failed, tokens, before, tag, after, tokenized, found, bound, refuses, ?_⟩
  have lines := congrArg Located.line placed
  exact (Option.some.inj lines).symm

end SheetMarkup
