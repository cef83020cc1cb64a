import SheetMarkup.Proofs.Expr.Refusal
import SheetMarkup.Proofs.Schema
import SheetMarkup.Proofs.Template.Constructs

/-!
# What readings report

What is reported inside of tags has some properties in common (`Report.Covers`): it is about the
line of a token that was still to be read, or about a line that was given (`Report.On`), and it
calls no token stray (`Report.Inside`). This is proved of single readings and carried over to what
is composed of them, construct by construct (`Reading.Reports`). Only what is wrong with the
parameters of a directive is reported without a line, and gets that of the tag (`Reports.orLine`).
A token is called stray only where no construct can begin with it (`Draft.report_of_step`).
-/

namespace SheetMarkup

/-- A report about a line with a property, and about no file yet. -/
def Report.On (P : Nat → Prop) (report : Report) : Prop :=
  report.file = none ∧ ∃ line, report.line = some line ∧ P line

theorem Report.on_onLine {P : Nat → Prop} (cause : Cause) {line : Nat} (h : P line) :
    Report.On P (.onLine cause line) :=
  ⟨rfl, line, rfl, h⟩

/-- The causes of what is reported inside of tags, where no token is called stray. -/
def Cause.Inner : Cause → Prop
  | .strayToken _ => False
  | _ => True

/-- A report with such a cause. -/
def Report.Inside (report : Report) : Prop := report.cause.Inner

/-- A report that has a property, or no place as yet. -/
def Report.Loose (Q : Report → Prop) (report : Report) : Prop :=
  Q report ∨ ∃ cause : Cause, cause.Inner ∧ report = .unplaced cause

/-- A property of all that is reported inside of tags about lines with another property. -/
structure Report.Covers (P : Nat → Prop) (Q : Report → Prop) : Prop where
  onLine : ∀ {cause : Cause} {line : Nat}, cause.Inner → P line → Q (.onLine cause line)
  orLine : ∀ {report : Report} (line : Nat), Q report → Q (report.orLine line)

/-- The causes of what is reported at a token that something else was needed for. -/
def Cause.AtToken : Cause → Prop
  | .refusedToken _ _ | .endOfTemplate | .otherToken _ _ | .namelessTag | .unexpectedTag _
  | .unknownTag _ => True
  | _ => False

theorem Cause.AtToken.inner {cause : Cause} (h : cause.AtToken) : cause.Inner := by
  cases cause <;> trivial

/-- A property of all that is reported at tokens on lines with another property. -/
structure Report.CoversTokens (P : Nat → Prop) (Q : Report → Prop) : Prop where
  onLine : ∀ {cause : Cause} {line : Nat}, cause.AtToken → P line → Q (.onLine cause line)

theorem Report.Covers.tokens {P : Nat → Prop} {Q : Report → Prop} (covers : Report.Covers P Q) :
    Report.CoversTokens P Q where
  onLine := fun token here => covers.onLine token.inner here

theorem Report.covers_on (P : Nat → Prop) : Report.Covers P (Report.On P) where
  onLine := fun _ here => Report.on_onLine _ here
  orLine := by
    rintro report line ⟨file, known, eq, on⟩
    rw [Located.orLine_of_line eq]
    exact ⟨file, known, eq, on⟩

theorem Report.covers_inside (P : Nat → Prop) : Report.Covers P Report.Inside where
  onLine := fun inner _ => inner
  orLine := fun _ inside => inside

namespace TokenStream

theorem IsRestOf.remaining_subset {s s' : TokenStream} (h : s'.IsRestOf s) :
    s'.remaining ⊆ s.remaining := by
  obtain ⟨count, rfl⟩ := h
  intro token mem
  rcases List.mem_append.mp mem with mem | mem
  · exact List.mem_append_left _ (List.mem_of_mem_drop mem)
  · exact List.mem_append_right _ mem

theorem current_mem_remaining (s : TokenStream) : s.current ∈ s.remaining :=
  List.mem_of_mem_head? s.head?_remaining

end TokenStream

/-- An expression is refused at one of the tokens, or at their end. -/
theorem Expr.found_mem_of_read {tokens : List Token} {refusal : Refusal}
    (h : read tokens = .error refusal) : ∀ token ∈ refusal.found, token ∈ tokens := by
  obtain ⟨taken, rest, last, rfl, -, -, rfl⟩ := Reader.run_eq_error h
  intro token found
  exact List.mem_append_right _ (List.mem_of_mem_head? found)

namespace Reading

/-- Whether all that a reading reports has a property, if the lines still to be read have
another. -/
def Reports {α : Type} (P : Nat → Prop) (Q : Report → Prop) (r : Reading α) : Prop :=
  ∀ s report s', (∀ token ∈ s.remaining, P token.line) → r s = .error report s' → Q report

namespace Reports

variable {α β : Type} {P : Nat → Prop} {Q : Report → Prop} {r : Reading α}

theorem mono {Q' : Report → Prop} (h : Reports P Q r) (weaker : ∀ report, Q report → Q' report) :
    Reports P Q' r :=
  fun s report s' lines failed => weaker report (h s report s' lines failed)

/-! ## Composed readings -/

theorem pure (a : α) : Reports P Q (Pure.pure a : Reading α) := by
  intro s report s' _ failed
  cases failed

theorem throw {report : Report} (h : Q report) :
    Reports P Q (MonadExcept.throw report : Reading α) := by
  intro s other s' _ failed
  cases failed
  exact h

theorem bind {f : α → Reading β} (forward : Forward r) (h : Reports P Q r)
    (hf : ∀ a, Reports P Q (f a)) : Reports P Q (r >>= f) := by
  intro s report s' lines failed
  simp only [Bind.bind, EStateM.bind] at failed
  split at failed
  · next a t first =>
    have rest := (forward.ok first).remaining_subset
    exact hf a t report s' (fun token mem => lines token (rest mem)) failed
  · next other t first =>
    cases failed
    exact h s report s' lines first

theorem map (h : Reports P Q r) (f : α → β) : Reports P Q (f <$> r) := by
  intro s report s' lines failed
  simp only [Functor.map, EStateM.map] at failed
  split at failed
  · cases failed
  · next other t first =>
    cases failed
    exact h s report s' lines first

theorem ite {p : Prop} [Decidable p] {r t : Reading α} (hr : Reports P Q r)
    (ht : Reports P Q t) : Reports P Q (if p then r else t) := by
  split
  · exact hr
  · exact ht

/-- The current token is on a line that is still to be read. -/
theorem current_bind {f : Token → Reading β} (h : ∀ token, P token.line → Reports P Q (f token)) :
    Reports P Q (current >>= f) := by
  intro s report s' lines failed
  exact h s.current (lines _ s.current_mem_remaining) s report s' lines failed

theorem next_bind {f : Token → Reading β} (h : ∀ token, P token.line → Reports P Q (f token)) :
    Reports P Q (next >>= f) := by
  intro s report s' lines failed
  have taken : next s = .ok s.current s.advance := rfl
  have rest := (Forward.next.ok taken).remaining_subset
  exact h s.current (lines _ s.current_mem_remaining) s.advance report s'
    (fun token mem => lines token (rest mem)) failed

/-- A report that lacks a line gets one. -/
theorem orLine (covers : Report.Covers P Q) (h : Reports P (Report.Loose Q) r) {line : Nat}
    (here : P line) : Reports P Q (r.orLine line) := by
  intro s report s' lines failed
  simp only [Reading.orLine] at failed
  split at failed
  · cases failed
  · next other t first =>
    cases failed
    rcases h s other s' lines first with known | ⟨cause, inner, rfl⟩
    · exact covers.orLine line known
    · exact covers.onLine inner here

theorem ofExcept {x : Except Cause α} (inner : ∀ cause, x = .error cause → cause.Inner) :
    Reports P (Report.Loose Q) (ofExcept x) := by
  intro s report s' _ failed
  cases x with
  | ok => cases failed
  | error cause =>
      cases failed
      exact .inr ⟨cause, inner cause rfl, rfl⟩

/-! ## Single tokens -/

section

variable (covers : Report.CoversTokens P Q)

include covers

theorem wanted (what : String) : Reports P Q (wanted what : Reading α) := by
  intro s report s' lines failed
  cases failed
  refine covers.onLine ?_ (lines _ s.current_mem_remaining)
  split <;> exact trivial

theorem expect (kind : Token.Kind) : Reports P Q (expect kind) := by
  intro s report s' lines failed
  simp only [Reading.expect] at failed
  split at failed
  · cases failed
  · exact wanted covers _ s report s' lines failed

theorem expectName : Reports P Q expectName := by
  intro s report s' lines failed
  simp only [Reading.expectName] at failed
  split at failed
  · cases failed
  · exact wanted covers _ s report s' lines failed

theorem expectKeyword (name : String) : Reports P Q (expectKeyword name) := by
  intro s report s' lines failed
  simp only [Reading.expectKeyword] at failed
  split at failed
  · cases failed
  · exact wanted covers _ s report s' lines failed

theorem expression : Reports P Q expression := by
  intro s report s' lines failed
  simp only [Reading.expression] at failed
  split at failed
  · cases failed
  · next refusal refused =>
    cases failed
    refine covers.onLine trivial ?_
    -- the line of the refused token, or that of the end
    cases found : refusal.found with
    | none => exact lines s.eof (by simp [TokenStream.remaining])
    | some token => exact lines token (Expr.found_mem_of_read refused token found)

end

theorem collect {stop : Token.Kind} {item later : Item α} (forward : Forward item.1)
    (forward' : Forward later.1) (h : Reports P Q item.1) (h' : Reports P Q later.1) :
    Reports P Q (collect stop item later) := by
  intro s report s' lines failed
  fun_induction Reading.collect stop item later s with
  | case1 => cases failed
  | case2 item s _ other t first =>
    cases failed
    exact h s report s' lines first
  | case3 item s _ a t first other t' others ih =>
    cases failed
    have rest := (forward.ok first).remaining_subset
    exact ih forward' h' (fun token mem => lines token (rest mem)) others
  | case4 => cases failed

end Reports

end Reading

/-! ## Parameters -/

/-- What is wrong with the parameters of a directive is no stray token. -/
theorem Schema.inner_of_ofList {ps : List Parameter} {cause : Cause}
    (h : ofList ps = .error cause) : cause.Inner := by
  obtain ⟨name, rfl⟩ := exists_eq_declaredTwice h
  exact trivial

theorem Schema.inner_of_bind {schema : Schema} {es : List Expr} {cause : Cause}
    (h : schema.bind es = .error cause) : cause.Inner := by
  rcases Parameter.cause_of_bind (bind_eq_error_iff.mp h) with rfl | rfl <;> exact trivial

/-! ## Constructs -/

/-- The kinds of tokens that a construct or the end of a template can begin with. -/
def Token.Kind.BeginsConstruct : Token.Kind → Prop
  | .text _ | .opening _ | .eof => True
  | .closing _ | .name _ | .string _ | .integer _ | .real _ | .symbol _ => False

open Reading

namespace Draft

section Parts

variable {P : Nat → Prop} {Q : Report → Prop} (covers : Report.CoversTokens P Q) (draft : Draft)
  (line : Nat)

theorem reports_next : Reports P Q next := by
  intro s report s' _ failed
  cases failed

theorem reports_enter (tag : OpenTag) : Reports P Q (draft.enter tag) :=
  .current_bind fun _ _ => .pure _

include covers

theorem reports_endBlock : Reports P Q endBlock := (Reports.expect covers _).map _

theorem reports_readOutput : Reports P Q (draft.readOutput line) :=
  .bind .expression (.expression covers) fun _ =>
    .bind (.expect _) (.expect covers _) fun _ => .pure _

theorem reports_openChoice : Reports P Q (draft.openChoice line) :=
  .bind .expression (.expression covers) fun _ =>
    .bind forward_endBlock (reports_endBlock covers) fun _ => reports_enter _ _

theorem reports_openLoop : Reports P Q (draft.openLoop line) :=
  .bind .expectName (.expectName covers) fun _ =>
    .bind (.expectKeyword _) (.expectKeyword covers _) fun _ =>
      .bind .expression (.expression covers) fun _ =>
        .bind forward_endBlock (reports_endBlock covers) fun _ => reports_enter _ _

theorem reports_openDefinition : Reports P Q (draft.openDefinition line) := by
  have later_forward : Forward laterNameItem.1 := (Forward.expect _).bind fun _ => .expectName
  have later : Reports P Q laterNameItem.1 :=
    .bind (.expect _) (.expect covers _) fun _ => .expectName covers
  refine .bind .expectName (.expectName covers) fun _ => ?_
  refine .bind (.expect _) (.expect covers _) fun _ => ?_
  refine .bind (.collect .expectName later_forward) ?_ fun _ => ?_
  · exact .collect .expectName later_forward (.expectName covers) later
  · exact .bind (.expect _) (.expect covers _) fun _ =>
      .bind forward_endBlock (reports_endBlock covers) fun _ => reports_enter _ _

theorem reports_closeTag (tag : OpenTag) (outer : Body) (enclosing : List (OpenTag × Body))
    (name : String) : Reports P Q (draft.closeTag tag outer enclosing name) := by
  refine .bind forward_endBlock (reports_endBlock covers) fun _ => ?_
  split
  · exact reports_enter _ _
  · exact .pure _

end Parts

section

variable {P : Nat → Prop} {Q : Report → Prop} (covers : Report.Covers P Q) (draft : Draft)
  (dialect : Dialect) (bound : Bound) {line : Nat}

theorem atToken_foreignTag (name : String) : (foreignTag name).AtToken := by
  unfold foreignTag
  split <;> exact trivial

include covers

/-- What is wrong with parameters has no place, what is wrong with their expressions has one. -/
theorem reports_readParameters (directive : Directive) (name : Token) :
    Reports P (Report.Loose Q) (directive.readParameters name) := by
  have placed : ∀ {α : Type} {r : Reading α}, Reports P Q r → Reports P (Report.Loose Q) r :=
    fun h => h.mono fun _ => Or.inl
  have token := covers.tokens
  refine .bind (.ofExcept _) (.ofExcept fun _ => Schema.inner_of_ofList) fun schema => ?_
  refine .bind (.collect .expression .expression) ?_ fun es => ?_
  · exact placed (.collect .expression .expression (.expression token) (.expression token))
  · exact .bind forward_endBlock (placed (reports_endBlock token)) fun _ =>
      .ofExcept fun _ => Schema.inner_of_bind

/-- Reports about the parameters of a directive are about the line of its tag, or of what stands in
it. -/
theorem reports_openDirective {name : Token} (here : P name.line) (directive : Directive) :
    Reports P Q (draft.openDirective name directive) := by
  have parameters := (reports_readParameters covers directive name).orLine covers here
  exact .bind ((forward_readParameters directive name).orLine name.line) parameters fun _ =>
    .ite (reports_enter _ _) (.pure _)

theorem reports_openTag (here : P line) (name : String) :
    Reports P Q (draft.openTag dialect line name) := by
  have token := covers.tokens
  refine .ite (reports_openChoice token _ _) (.ite (reports_openLoop token _ _)
    (.ite (reports_openDefinition token _ _) ?_))
  split
  · exact reports_openDirective covers _ here _
  · exact .throw (token.onLine (atToken_foreignTag name) here)

theorem reports_readBlock : Reports P Q (draft.readBlock dialect bound) := by
  refine .current_bind fun token here => ?_
  split
  · split
    · refine .ite ?_ ?_
      · exact .ite (reports_next.map _) (.pure _)
      · exact .next_bind fun _ _ => (reports_openTag covers _ _ here _).map _
    · exact .next_bind fun _ _ =>
        .ite ((reports_closeTag covers.tokens _ _ _ _ _).map _)
          ((reports_openTag covers _ _ here _).map _)
  · exact .throw (covers.onLine trivial here)

/-- What is reported while a construct is read, if one can begin with the current token. -/
theorem report_of_step {s s' : TokenStream} {report : Report}
    (begins : s.current.kind.BeginsConstruct) (lines : ∀ token ∈ s.remaining, P token.line)
    (failed : draft.step dialect bound s = .error report s') : Q report := by
  cases kind : s.current.kind with
  | text value =>
      rw [step_of_text kind] at failed
      cases failed
  | opening form =>
      cases form with
      | output =>
          simp only [step, kind] at failed
          have parts := reports_readOutput covers.tokens
          exact Reports.next_bind (fun _ _ => (parts _ _).map _) s report s' lines failed
      | block =>
          simp only [step, kind] at failed
          exact Reports.next_bind (fun _ _ => reports_readBlock covers _ _ _) s report s' lines
            failed
  | eof =>
      simp only [step, kind] at failed
      split at failed
      · cases failed
      · cases failed
        exact covers.onLine trivial (lines _ s.current_mem_remaining)
  | _ =>
      rw [kind] at begins
      exact begins.elim

end

variable {P : Nat → Prop} (draft : Draft) (dialect : Dialect) (bound : Bound)

/-- What is reported while a construct is read is about a line that was still to be read. -/
theorem reports_step : Reports P (Report.On P) (draft.step dialect bound) := by
  intro s report s' lines failed
  by_cases begins : s.current.kind.BeginsConstruct
  · exact report_of_step (Report.covers_on P) draft dialect bound begins lines failed
  · -- the token itself is reported, on its line
    have stray : draft.step dialect bound s =
        .error (.onLine (.strayToken s.current.kind) s.current.line) s := by
      cases kind : s.current.kind <;> simp [step, kind, Token.Kind.BeginsConstruct] at begins ⊢
    cases stray.symm.trans failed
    exact Report.on_onLine _ (lines _ s.current_mem_remaining)

/-- So is what is reported while a whole body is read. -/
theorem reports_read : Reports P (Report.On P) (draft.read dialect bound) := by
  intro s report s' lines failed
  induction draft, s using Draft.read.induct dialect bound with
  | case1 draft s _ _ failing =>
      rw [read_eq, failing] at failed
      cases failed
      exact draft.reports_step dialect bound s _ _ lines failing
  | case2 draft s _ _ ended =>
      rw [read_eq, ended] at failed
      cases failed
  | case3 draft s draft' t went ih =>
      rw [read_eq, went] at failed
      obtain ⟨taken, rfl, -⟩ := takes_of_step went
      rw [TokenStream.remaining_prepend] at lines
      exact ih (fun token mem => lines token (List.mem_append_right _ mem)) failed

end Draft

end SheetMarkup
