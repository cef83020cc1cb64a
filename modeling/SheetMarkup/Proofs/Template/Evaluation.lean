import SheetMarkup.Proofs.Source.Evaluation
import SheetMarkup.Proofs.Template.Constructs

/-!
# Evaluating the reading of a template

The reading of a template is a recursion on the tokens that remain, which does not compute by
itself. Here the number of constructs that may be read is given (`Draft.readWithin`). What comes of
some number of constructs is what comes of reading (`Draft.read_of_readWithin`), so the template of
a given source can be found by evaluation (`Dialect.readTemplate_of_bodyWithin`), and so can what is
reported about the source (`Dialect.readTemplate_of_reportWithin`).
-/

namespace SheetMarkup

namespace Draft

variable (dialect : Dialect)

/-- Reads a template up to its end or to what is reported, if it has at most so many constructs. -/
def readWithin : Nat → Draft → TokenStream → Option (EStateM.Result Report TokenStream Node)
  | 0, _, _ => none
  | steps + 1, draft, s =>
    match draft.step dialect .atEnd s with
    | .error report s' => some (.error report s')
    | .ok (.inr node) s' => some (.ok node s')
    | .ok (.inl draft') s' => readWithin steps draft' s'

variable {dialect} {draft : Draft} {s : TokenStream} {steps : Nat}

theorem read_of_readWithin {result : EStateM.Result Report TokenStream Node}
    (h : readWithin dialect steps draft s = some result) :
    draft.read dialect .atEnd s = result := by
  induction steps generalizing draft s with
  | zero => cases h
  | succ steps ih =>
      rw [readWithin] at h
      split at h
      · next failed =>
        rw [read_eq, failed]
        cases h
        rfl
      · next ended =>
        rw [read_eq, ended]
        cases h
        rfl
      · next went =>
        rw [read_eq, went]
        exact ih h

end Draft

namespace Dialect

variable {dialect : Dialect} {source : String}

/-- What comes of the tokens of a source, if they have at most so many constructs. -/
def readWithin (dialect : Dialect) (steps : Nat) (tokens : List Token) :
    Option (EStateM.Result Report TokenStream Node) :=
  Draft.readWithin dialect steps (.start (TokenStream.ofList tokens).current.line)
    (.ofList tokens)

/-- The body of a template, if it has at most so many constructs and its source so many pieces. -/
def bodyWithin (dialect : Dialect) (steps : Nat) (source : String) : Option Node :=
  match tokenizeWithin steps source with
  | none | some (.error _) => none
  | some (.ok tokens) =>
    match dialect.readWithin steps tokens with
    | some (.ok body _) => some body
    | _ => none

/-- What is reported about a source, if it is reported within so many constructs and the source has
at most so many pieces. -/
def reportWithin (dialect : Dialect) (steps : Nat) (source : String) : Option Report :=
  match tokenizeWithin steps source with
  | none => none
  | some (.error report) => some report
  | some (.ok tokens) =>
    match dialect.readWithin steps tokens with
    | some (.error report _) => some report
    | _ => none

/-- A template whose body is found within some number of constructs is read. -/
theorem readTemplate_of_bodyWithin {body : Node} (steps : Nat)
    (h : dialect.bodyWithin steps source = some body) (file : String) :
    dialect.readTemplate file source = .ok ⟨file, body⟩ := by
  unfold bodyWithin at h
  split at h
  · cases h
  · cases h
  · next tokens within =>
    have tokenized := tokenize_of_tokenizeWithin steps within
    split at h
    · next _ s found =>
      cases h
      have read := Draft.read_of_readWithin found
      exact readTemplate_eq_ok_iff.mpr
        ⟨rfl, tokens, tokenized, Draft.exists_read_eq_ok_iff.mp ⟨s, read⟩⟩
    · cases h

/-- What is reported within some number of constructs is reported about the file. -/
theorem readTemplate_of_reportWithin {report : Report} (steps : Nat)
    (h : dialect.reportWithin steps source = some report) (file : String) :
    dialect.readTemplate file source = .error (report.orFile file) := by
  apply readTemplate_eq_error_iff.mpr
  refine ⟨report, rfl, ?_⟩
  unfold reportWithin at h
  split at h
  · cases h
  · next failed =>
    cases h
    exact .inl (tokenize_of_tokenizeWithin steps failed)
  · next tokens within =>
    have tokenized := tokenize_of_tokenizeWithin steps within
    split at h
    · next _ s found =>
      cases h
      exact .inr ⟨tokens, s, tokenized, Draft.read_of_readWithin found⟩
    · cases h

end Dialect

end SheetMarkup
