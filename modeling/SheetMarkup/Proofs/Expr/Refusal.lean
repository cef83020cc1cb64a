import SheetMarkup.Proofs.Template.Readings

/-!
# Where no expression goes on

The reader of expressions never takes a token in vain. From every state it can be led on to a
complete expression (`Reader.exists_accepts`), so the rows of tokens that it takes are exactly those
with which some expression begins (`begins_iff`). Hence the token at which a reading fails is the
first one with which no expression goes on, however many items, indices and comparisons around it
are left unfinished (`read_refuses_first`).
-/

namespace SheetMarkup

open Token (Kind kinds)

/-- Tokens with which some expression begins. -/
def Grammar.Begins (ks : List Kind) : Prop := ∃ more e, Grammar.Expression (ks ++ more) e

theorem Grammar.Begins.of_prefix {ks ks' : List Kind} (h : Begins ks) (begins : ks' <+: ks) :
    Begins ks' := by
  obtain ⟨more, e, derived⟩ := h
  obtain ⟨rest, rfl⟩ := begins
  exact ⟨rest ++ more, e, by rwa [← List.append_assoc]⟩

namespace Expr.Reader

open Grammar

/-! ## Every state can be completed -/

theorem exists_accepts_of_step {state next : State} {k : Kind} (h : step state k = some next)
    (behind : ∃ ks e, Accepts next ks e) : ∃ ks e, Accepts state ks e := by
  obtain ⟨ks, e, accepted⟩ := behind
  exact ⟨k :: ks, e, (accepts_cons h ks e).mpr accepted⟩

/-- Behind a complete operand everything that is open can be closed, from the innermost. -/
theorem exists_accepts_complete (operand : Expr) (extensible : Bool) (waiting : Waiting)
    (stack : Stack) : ∃ ks e, Accepts (.complete operand extensible waiting stack) ks e := by
  induction stack generalizing operand extensible waiting with
  | nil => exact ⟨[], waiting.close operand, (accepts_nil _ _).mpr rfl⟩
  | cons entry stack ih =>
      obtain ⟨purpose, outer⟩ := entry
      -- the operand may only be the right side of the comparison that waits
      generalize closed : waiting.close operand = value
      have ended : ∀ mark ∈ [Symbol.comma, .closeBracket, .closeBrace, .closeParen],
          step (.complete operand extensible waiting ((purpose, outer) :: stack)) (.symbol mark) =
            endExpression value ((purpose, outer) :: stack) (.symbol mark) := by
        intro mark ends
        rw [step_complete ends, closed]
      cases purpose with
      | item items =>
          exact exists_accepts_of_step (ended .closeBracket (by simp))
            (ih (.list (value :: items).reverse) false outer)
      | value pairs key =>
          exact exists_accepts_of_step (ended .closeBrace (by simp))
            (ih (.hash ((key, value) :: pairs).reverse) false outer)
      | group => exact exists_accepts_of_step (ended .closeParen (by simp)) (ih value true outer)
      | index object =>
          exact exists_accepts_of_step (ended .closeBracket (by simp))
            (ih (.index object value) true outer)
      | key pairs =>
          -- behind the key there are still a colon and a value to come
          refine exists_accepts_of_step (ended .closeParen (by simp)) ?_
          refine exists_accepts_of_step (k := .symbol .colon) rfl ?_
          refine exists_accepts_of_step (k := .string "") rfl ?_
          exact exists_accepts_of_step (k := .symbol .closeBrace) rfl
            (ih (.hash ((value, .string "") :: pairs).reverse) false outer)

/-- From every state some tokens lead to a complete expression with nothing open. -/
theorem exists_accepts (state : State) : ∃ ks e, Accepts state ks e := by
  cases state with
  | complete operand extensible waiting stack =>
      exact exists_accepts_complete operand extensible waiting stack
  | operand waiting stack =>
      exact exists_accepts_of_step (k := .string "") rfl (exists_accepts_complete _ _ _ _)
  | item items waiting stack =>
      exact exists_accepts_of_step (k := .symbol .closeBracket) rfl
        (exists_accepts_complete _ _ _ _)
  | key pairs waiting stack =>
      exact exists_accepts_of_step (k := .symbol .closeBrace) rfl
        (exists_accepts_complete _ _ _ _)
  | colon pairs key waiting stack =>
      refine exists_accepts_of_step (k := .symbol .colon) rfl ?_
      exact exists_accepts_of_step (k := .string "") rfl (exists_accepts_complete _ _ _ _)
  | «attribute» object waiting stack =>
      exact exists_accepts_of_step (k := .name "") rfl (exists_accepts_complete _ _ _ _)

/-- The machine takes exactly the tokens with which some expression begins. -/
theorem begins_iff {ks : List Kind} : Begins ks ↔ ∃ state, steps start ks = some state := by
  constructor
  · rintro ⟨more, e, derived⟩
    obtain ⟨final, run, -⟩ := accepts_start_iff.mpr derived
    rw [steps_append, Option.bind_eq_some_iff] at run
    obtain ⟨state, taken, -⟩ := run
    exact ⟨state, taken⟩
  · rintro ⟨state, taken⟩
    obtain ⟨more, e, final, run, value⟩ := exists_accepts state
    refine ⟨more, e, accepts_start_iff.mp ⟨final, ?_, value⟩⟩
    rw [steps_append_of taken, run]

/-! ## Where a run fails -/

/-- A run that fails has taken all tokens or stands before one that it cannot take. -/
theorem run_eq_error {state : State} {count : Nat} {best : Option (Expr × Nat)}
    {tokens : List Token} {refusal : Refusal} (h : run state count best tokens = .error refusal) :
    ∃ taken rest last, tokens = taken ++ rest ∧ steps state (kinds taken) = some last ∧
      (∀ token ∈ rest.head?, step last token.kind = none) ∧
      refusal = ⟨rest.head?, count + taken.length, last.expected⟩ := by
  induction tokens generalizing state count best with
  | nil =>
      simp only [run, run.settle] at h
      -- a run with a value to fall back on does not fail
      split at h
      · cases h
      · cases h
        exact ⟨[], [], state, rfl, rfl, by simp, rfl⟩
  | cons token tokens ih =>
      cases first : step state token.kind with
      | none =>
          simp only [run, first, run.settle] at h
          split at h
          · cases h
          · cases h
            refine ⟨[], token :: tokens, state, rfl, rfl, ?_, rfl⟩
            intro other head
            cases head
            exact first
      | some next =>
          simp only [run, first] at h
          obtain ⟨taken, rest, last, rfl, run, stop, rfl⟩ := ih h
          refine ⟨token :: taken, rest, last, rfl, ?_, stop, ?_⟩
          · rw [Token.kinds_cons, steps_cons, first, Option.bind_some, run]
          · simp only [List.length_cons, Nat.add_assoc, Nat.add_comm 1]

end Expr.Reader

namespace Expr

open Grammar Reader

/-- The first token of a list with which no expression goes on, and its place: some expression
begins with the tokens before it, and none with these and the token. -/
structure FirstForeign (tokens : List Token) (place : Nat) (token : Token) : Prop where
  stands : tokens[place]? = some token
  begins : Begins (kinds (tokens.take place))
  ends : ¬ Begins (kinds (tokens.take (place + 1)))
  least : ∀ other, ¬ Begins (kinds (tokens.take (other + 1))) → place ≤ other

/-- The first token that the machine refuses is the first with which no expression goes on. -/
theorem FirstForeign.of_steps {taken rest : List Token} {token : Token} {last : State}
    (run : steps start (kinds taken) = some last) (refused : step last token.kind = none) :
    FirstForeign (taken ++ token :: rest) taken.length token := by
  have begun : Begins (kinds taken) := begins_iff.mpr ⟨last, run⟩
  refine ⟨by simp, by simpa using begun, ?_, ?_⟩
  · intro begins
    obtain ⟨state, taken_steps⟩ := begins_iff.mp begins
    rw [List.take_length_add_append, Token.kinds_append, steps_append_of run] at taken_steps
    simp [steps_cons, refused] at taken_steps
  · -- before it there are only beginnings of what begins an expression
    intro other foreign
    refine Nat.le_of_not_lt fun less => foreign ?_
    rw [List.take_append_of_le_length (by omega)]
    exact begun.of_prefix ((List.take_prefix _ _).map Token.kind)

/-- If no expression can be read from tokens that end with the end of the template, the first token
with which no expression goes on is the one that is refused. The report names it as what was found,
and is about its line. -/
theorem read_refuses_first {tokens : List Token} {refusal : Refusal}
    (ends : tokens.getLast?.map Token.kind = some .eof) (failed : read tokens = .error refusal) :
    ∃ place token, FirstForeign tokens place token ∧ refusal.index = place ∧
      refusal.found = some token ∧
      Reading.expression (.ofList tokens) = .error (.onLine
        (.refusedToken (some token.kind) refusal.expected) token.line) (.ofList tokens) ∧
      ∃ more, (Cause.refusedToken (some token.kind) refusal.expected).message =
        "found " ++ Text.quote token.kind.display ++ more := by
  obtain ⟨taken, rest, last, rfl, run, stop, rfl⟩ := run_eq_error failed
  obtain ⟨init, line, whole⟩ : ∃ init line, taken ++ rest = init ++ [⟨.eof, line⟩] := by
    obtain ⟨final, last, kind⟩ := Option.map_eq_some_iff.mp ends
    obtain ⟨init, eq⟩ := List.getLast?_eq_some_iff.mp last
    exact ⟨init, final.line, by rw [eq, ← kind]⟩
  cases rest with
  | nil =>
      -- the end of the template is in no expression
      obtain ⟨more, e, derived⟩ := begins_iff.mpr ⟨last, run⟩
      rw [List.append_nil] at whole
      have inner := derived.inner.2 .eof (by simp [whole])
      cases inner
  | cons token rest =>
      have remaining : (TokenStream.ofList (taken ++ token :: rest)).remaining =
          taken ++ token :: rest := by
        rw [whole, TokenStream.ofList_append_eof]
        rfl
      refine ⟨taken.length, token, .of_steps run (stop token rfl), by simp, rfl, ?_, ⟨_, rfl⟩⟩
      simp only [Reading.expression, remaining, failed]
      rfl

/-- An index of a name in a list holds one expression, so the comma in it is refused. -/
theorem read_refuses_first_in_index :
    let tokens : List Token := [⟨.symbol .openBracket, 1⟩, ⟨.name "a", 1⟩,
      ⟨.symbol .openBracket, 1⟩, ⟨.integer 1, 2⟩, ⟨.symbol .comma, 2⟩, ⟨.integer 2, 3⟩,
      ⟨.symbol .closeBracket, 3⟩, ⟨.symbol .closeBracket, 3⟩, ⟨.eof, 4⟩]
    let refusal : Refusal :=
      ⟨some ⟨.symbol .comma, 2⟩, 4, [.unequal, .equal, .closeBracket]⟩
    tokens.getLast?.map Token.kind = some .eof ∧ read tokens = .error refusal ∧
      FirstForeign tokens 4 ⟨.symbol .comma, 2⟩ ∧
      Reading.expression (.ofList tokens) = .error (.onLine
        (.refusedToken (some (.symbol .comma)) refusal.expected) 2) (.ofList tokens) := by
  intro tokens refusal
  have failed : read tokens = .error refusal := rfl
  obtain ⟨place, token, first, same, found, report, -⟩ := read_refuses_first rfl failed
  cases same
  cases found
  exact ⟨rfl, failed, first, report⟩

end Expr

end SheetMarkup
