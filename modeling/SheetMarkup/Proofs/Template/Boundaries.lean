import Mathlib
import SheetMarkup.Proofs.Lexeme.Word
import SheetMarkup.Proofs.Source.Evaluation
import SheetMarkup.Proofs.Source.Shape
import SheetMarkup.Proofs.Template.Reports

/-!
# Readings keep to the boundaries of tags

The tokens of a source are texts and whole tags with the end behind them (`Segments`). A construct
is a text or a whole tag, so what remains behind it is again texts and whole tags
(`Draft.Takes.segments`). By induction on the constructs read so far, this holds wherever the
reading of a template stands between two constructs (`Draft.Reached.segments`), and so wherever a
body begins, goes on or ends, whatever the directives are and however deep the bodies are nested.
Hence no token of a source is ever reported to be stray (`tokenize_boundaries`).
-/

namespace SheetMarkup

open Token (kinds)

/-! ## Segments without their first construct -/

namespace Segments

/-- A construct or the end of the template can begin with the first token of segments. -/
theorem beginsConstruct {tokens : List Token} (h : Segments tokens) :
    ∀ token ∈ tokens.head?, token.kind.BeginsConstruct := by
  cases h <;> simp [Token.Kind.BeginsConstruct]

theorem behind_text {value : String} {line : Nat} {rest : List Token}
    (h : Segments (⟨.text value, line⟩ :: rest)) : Segments rest := by
  cases h with
  | text _ _ rest => exact rest

/-- A tag ends with the first closer behind its opener. -/
theorem behind_tag {form form' : TagForm} {opened closed : Nat} {row rest : List Token}
    (inner : ∀ token ∈ row, token.kind.IsInner)
    (h : Segments (⟨.opening form, opened⟩ :: row ++ ⟨.closing form', closed⟩ :: rest)) :
    Segments rest := by
  generalize whole : (⟨.opening form, opened⟩ :: row ++ ⟨.closing form', closed⟩ :: rest) = tokens
    at h
  cases h with
  | eof => cases whole
  | text => cases whole
  | tag _ _ _ inner' segments =>
      -- the closer is the first token that cannot stand inside of the tag
      simp only [List.cons_append, List.cons.injEq] at whole
      have stop : ∀ {form line rest}, ∀ token ∈ (⟨.closing form, line⟩ :: rest : List Token).head?,
          decide token.kind.IsInner = false := by
        rintro form line rest _ ⟨⟩
        rfl
      obtain ⟨-, behind⟩ := eq_of_runs whole.2 (by simpa using inner) (by simpa using inner')
        stop stop
      cases behind
      exact segments

end Segments

namespace Draft

/-! ## Constructs -/

theorem segments_of_blockTag {opened line closed : Nat} {name : String} {row rest : List Token}
    (inner : ∀ token ∈ row, token.kind.IsInner)
    (h : Segments (blockTag opened line name row closed ++ rest)) : Segments rest := by
  have inner' : ∀ token ∈ ⟨.name name, line⟩ :: row, token.kind.IsInner := by
    simpa [Token.Kind.IsInner] using inner
  apply Segments.behind_tag inner'
  simpa [blockTag] using h

/-- Behind a construct there are texts and whole tags if there were before it. -/
theorem Takes.segments {dialect : Dialect} {bound : Bound} {draft draft' : Draft} {next : Nat}
    {taken rest : List Token} (takes : draft.Takes dialect bound next taken draft')
    (h : Segments (taken ++ rest)) : Segments rest := by
  cases takes with
  | text => exact h.behind_text
  | output line closed derived =>
      apply Segments.behind_tag derived.isInner
      simpa using h
  | opening _ _ _ opening => exact segments_of_blockTag opening.isInner h
  | lone _ _ _ _ _ _ _ bound => exact segments_of_blockTag bound.isInner h
  | alternative => exact segments_of_blockTag (by simp) h
  | close => exact segments_of_blockTag (by simp) h

/-! ## Between two constructs -/

/-- The drafts in which the reading of a template stands between two constructs, and what remains of
the tokens there. Every body begins and ends at such a place. -/
inductive Reached (dialect : Dialect) (tokens : List Token) : Draft → TokenStream → Prop
  | start : Reached dialect tokens (.start (TokenStream.ofList tokens).current.line)
      (.ofList tokens)
  | step {draft draft' : Draft} {s s' : TokenStream} : Reached dialect tokens draft s →
      draft.step dialect .atEnd s = .ok (.inl draft') s' → Reached dialect tokens draft' s'

namespace Reached

variable {dialect : Dialect} {tokens : List Token} {draft : Draft} {s : TokenStream}

/-- From a draft that is reached, the template is read on. -/
theorem readBody_eq (reached : Reached dialect tokens draft s) :
    dialect.readBody .atEnd (.ofList tokens) = draft.read dialect .atEnd s := by
  induction reached with
  | start => rfl
  | step _ step ih =>
      obtain ⟨taken, rfl, takes⟩ := takes_of_step step
      rw [ih, read_prepend takes]

/-- Between two constructs, texts and whole tags remain. -/
theorem segments (whole : Segments tokens) (reached : Reached dialect tokens draft s) :
    Segments s.remaining := by
  induction reached with
  | start =>
      obtain ⟨init, line, rfl, -⟩ := whole.exists_eq_append_eof
      rwa [TokenStream.ofList_append_eof]
  | step _ step ih =>
      obtain ⟨taken, rfl, takes⟩ := takes_of_step step
      rw [TokenStream.remaining_prepend] at ih
      exact takes.segments ih

theorem beginsConstruct (whole : Segments tokens) (reached : Reached dialect tokens draft s) :
    s.current.kind.BeginsConstruct :=
  (reached.segments whole).beginsConstruct s.current s.head?_remaining

/-- What is reported behind a draft that is reached is reported by one step, from a draft that is
reached as well. -/
theorem exists_step_eq_error (reached : Reached dialect tokens draft s) {report : Report}
    {s' : TokenStream} (failed : draft.read dialect .atEnd s = .error report s') :
    ∃ last t, Reached dialect tokens last t ∧ last.step dialect .atEnd t = .error report s' := by
  induction draft, s using Draft.read.induct dialect .atEnd with
  | case1 draft s _ _ failing =>
      rw [read_eq, failing] at failed
      cases failed
      exact ⟨draft, s, reached, failing⟩
  | case2 draft s _ _ ended =>
      rw [read_eq, ended] at failed
      cases failed
  | case3 draft s draft' t step ih =>
      obtain ⟨taken, rfl, takes⟩ := takes_of_step step
      rw [read_prepend takes] at failed
      exact ih (reached.step step) failed

/-- It comes from inside of a tag, or says that the template ends too early. -/
theorem inside_of_read_eq_error (whole : Segments tokens) (reached : Reached dialect tokens draft s)
    {report : Report} {s' : TokenStream} (failed : draft.read dialect .atEnd s = .error report s') :
    report.Inside := by
  obtain ⟨last, t, reached', failing⟩ := reached.exists_step_eq_error failed
  have anywhere := Report.covers_inside fun _ => True
  exact report_of_step anywhere last dialect .atEnd (reached'.beginsConstruct whole)
    (fun _ _ => trivial) failing

end Reached

end Draft

/-- The tokens of a source are texts and whole tags with the end behind them. Whatever the
directives are, the reading of them stands at a text, at the opener of a tag or at the end between
any two constructs, and no token is reported to be stray. -/
theorem tokenize_boundaries (dialect : Dialect) {source : String} {tokens : List Token}
    (tokenized : tokenize source = .ok tokens) :
    Segments tokens ∧
      (∀ draft s, Draft.Reached dialect tokens draft s →
        s.current.kind.BeginsConstruct ∧
          dialect.readBody .atEnd (.ofList tokens) = draft.read dialect .atEnd s) ∧
      ∀ file report, dialect.readTemplate file source = .error report →
        ∀ found, report.cause ≠ .strayToken found := by
  have whole := (tokenize_shape tokenized).1
  refine ⟨whole, ?_, ?_⟩
  · intro draft s reached
    exact ⟨reached.beginsConstruct whole, reached.readBody_eq⟩
  · intro file report failed found stray
    simp only [Dialect.readTemplate, tokenized] at failed
    split at failed
    · cases failed
    · next raised s read =>
      cases failed
      have reached : Draft.Reached dialect tokens _ _ := .start
      rw [reached.readBody_eq] at read
      have inside := reached.inside_of_read_eq_error whole read
      rw [Report.Inside, show raised.cause = _ from stray] at inside
      exact inside

/-- A printed value with a name too many behind it, in the body of a condition. -/
theorem tokenize_boundaries_condition :
    let source := "\x7b%if c%\x7dx\x7b\x7by y\x7d\x7d"
    ∃ tokens draft s report, tokenize source = .ok tokens ∧ Segments tokens ∧
      Draft.Reached .host tokens draft s ∧ s.current.kind = .text "x" ∧
      s.current.kind.BeginsConstruct ∧ Dialect.host.readTemplate "a" source = .error report ∧
      ∀ found, report.cause ≠ .strayToken found := by
  intro source
  let row : List Token := [⟨.opening .block, 1⟩, ⟨.name "if", 1⟩, ⟨.name "c", 1⟩,
    ⟨.closing .block, 1⟩]
  let body : List Token := [⟨.text "x", 1⟩, ⟨.opening .output, 1⟩, ⟨.name "y", 1⟩, ⟨.name "y", 1⟩,
    ⟨.closing .output, 1⟩]
  have tokenized : tokenize source = .ok (row ++ body ++ [⟨.eof, 1⟩]) :=
    tokenize_of_tokenizeWithin 3 (by cbv)
  have step : (Draft.start 1).step .host .atEnd ⟨row ++ body, 1⟩ =
      .ok (.inl ((Draft.start 1).within (.thenBody 1 (.name "c")) 1)) ⟨body, 1⟩ := rfl
  have failed : Dialect.host.readTemplate "a" source =
      .error ⟨.otherToken (.name "y") "\x7d\x7d", some "a", some 1⟩ := by cbv
  obtain ⟨segments, between, sound⟩ := tokenize_boundaries .host tokenized
  have reached : Draft.Reached .host (row ++ body ++ [⟨.eof, 1⟩]) _ _ := .step .start step
  exact ⟨_, _, _, _, tokenized, segments, reached, rfl, (between _ _ reached).1, failed,
    sound _ _ failed⟩

end SheetMarkup
