import Mathlib.Data.List.Sublists
import SheetMarkup.Proofs.Schema

/-!
# Where expressions go

The binding of parameters goes from parameter to parameter. What it comes to is said here from the
side of the expressions: each goes to the first parameter behind that of the expression before
which accepts it (`Parameter.greedy`). The binding fails if this leaves a required parameter
without an expression or an expression without a parameter, and in no other case
(`Parameter.bind_eq_ok_iff`). No assignment that keeps the order puts any expression in front of
the place that it has here (`Parameter.forall₂_greedy_le`), so every expression finds a parameter
as soon as there is some assignment at all, which only depends on the kinds of both
(`Parameter.length_greedy_eq_iff`). Main result: `bind_leftmost`.
-/

namespace SheetMarkup

/-- The kind of parameter that an expression is for. -/
def Parameter.Kind.of (e : Expr) : Parameter.Kind := if e.isArray then .array else .value

namespace Parameter

theorem Kind.accepts_iff {kind : Kind} {e : Expr} : kind.accepts e = true ↔ kind = .of e := by
  cases kind <;> cases array : e.isArray <;> simp [Kind.accepts, Kind.of, array]

/-! ## Assignments -/

/-- An assignment of expressions to the parameters at some places: it keeps the order, and each
expression is accepted where it goes. -/
structure Assignment (ps : List Parameter) (es : List Expr) (places : List Nat) : Prop where
  increasing : places.Pairwise (· < ·)
  accepted : List.Forall₂ (fun e i => ∃ p, ps[i]? = some p ∧ p.kind.accepts e = true) es places

/-- The first place from `start` on where a parameter accepts an expression. -/
def firstPlace? (ps : List Parameter) (start : Nat) (e : Expr) : Option Nat :=
  ((ps.drop start).findIdx? fun p => p.kind.accepts e).map (start + ·)

/-- Puts each expression, from `start` on, at the first place behind the one before where it is
accepted. An expression that is accepted nowhere ends this, as all others would stand behind it. -/
def greedy (ps : List Parameter) (start : Nat) : List Expr → List Nat
  | [] => []
  | e :: es =>
    match firstPlace? ps start e with
    | none => []
    | some i => i :: greedy ps (i + 1) es

/-- Whether a required parameter is at none of the places. -/
def LeavesRequired (ps : List Parameter) (places : List Nat) : Prop :=
  ∃ i p, ps[i]? = some p ∧ p.default = none ∧ i ∉ places

/-! ## The first place -/

theorem firstPlace?_nil (start : Nat) (e : Expr) : firstPlace? [] start e = none := by
  simp [firstPlace?]

theorem firstPlace?_cons_succ (p : Parameter) (ps : List Parameter) (start : Nat) (e : Expr) :
    firstPlace? (p :: ps) (start + 1) e = (firstPlace? ps start e).map (· + 1) := by
  simp only [firstPlace?, List.drop_succ_cons, Option.map_map]
  congr 1
  funext i
  simp only [Function.comp_apply]
  omega

theorem firstPlace?_cons_zero (p : Parameter) (ps : List Parameter) (e : Expr) :
    firstPlace? (p :: ps) 0 e =
      if p.kind.accepts e then some 0 else (firstPlace? ps 0 e).map (· + 1) := by
  simp only [firstPlace?, List.drop_zero, List.findIdx?_cons]
  split
  · rfl
  · simp [Function.comp_def]

/-- An expression that some parameter from `start` on accepts has a first place, and this is not
behind that parameter. -/
theorem exists_firstPlace?_le {ps : List Parameter} {start i : Nat} {e : Expr} {p : Parameter}
    (le : start ≤ i) (here : ps[i]? = some p) (accepts : p.kind.accepts e = true) :
    ∃ j ≤ i, firstPlace? ps start e = some j := by
  have behind : (ps.drop start)[i - start]? = some p := by
    rw [List.getElem?_drop, Nat.add_sub_cancel' le, here]
  obtain ⟨lt, eq⟩ := List.getElem?_eq_some_iff.mp behind
  cases found : (ps.drop start).findIdx? fun p => p.kind.accepts e with
  | none =>
      have refused := List.findIdx?_eq_none_iff.mp found p (List.mem_of_getElem? behind)
      simp [accepts] at refused
  | some j =>
      obtain ⟨_, -, minimal⟩ := List.findIdx?_eq_some_iff_getElem.mp found
      refine ⟨start + j, ?_, by simp [firstPlace?, found]⟩
      by_contra later
      exact minimal (i - start) (by omega) (by rwa [eq])

theorem accepts_of_firstPlace? {ps : List Parameter} {start i : Nat} {e : Expr}
    (h : firstPlace? ps start e = some i) :
    start ≤ i ∧ ∃ p, ps[i]? = some p ∧ p.kind.accepts e = true := by
  simp only [firstPlace?, Option.map_eq_some_iff] at h
  obtain ⟨j, found, rfl⟩ := h
  obtain ⟨lt, accepts, -⟩ := List.findIdx?_eq_some_iff_getElem.mp found
  rw [List.length_drop] at lt
  refine ⟨by omega, ps[start + j], List.getElem?_eq_getElem (by omega), ?_⟩
  simpa using accepts

/-! ## The greedy assignment -/

theorem greedy_nil (start : Nat) (es : List Expr) : greedy [] start es = [] := by
  cases es with
  | nil => rfl
  | cons e es => rw [greedy, firstPlace?_nil]

theorem greedy_cons_succ (p : Parameter) (ps : List Parameter) (start : Nat) (es : List Expr) :
    greedy (p :: ps) (start + 1) es = (greedy ps start es).map (· + 1) := by
  induction es generalizing start with
  | nil => rfl
  | cons e es ih =>
      rw [greedy, greedy, firstPlace?_cons_succ]
      cases firstPlace? ps start e with
      | none => rfl
      | some i => simp [ih]

theorem greedy_cons_of_accepts {p : Parameter} {e : Expr} (h : p.kind.accepts e = true)
    (ps : List Parameter) (es : List Expr) :
    greedy (p :: ps) 0 (e :: es) = 0 :: (greedy ps 0 es).map (· + 1) := by
  simp only [greedy, firstPlace?_cons_zero, h, if_true, greedy_cons_succ]

/-- A parameter that does not accept the next expression, if there is one. -/
def Refuses (p : Parameter) (es : List Expr) : Prop := ∀ e ∈ es.head?, ¬ p.kind.accepts e = true

theorem greedy_cons_of_refuses {p : Parameter} {es : List Expr} (h : p.Refuses es)
    (ps : List Parameter) : greedy (p :: ps) 0 es = (greedy ps 0 es).map (· + 1) := by
  cases es with
  | nil => rfl
  | cons e es =>
      rw [greedy, greedy, firstPlace?_cons_zero, if_neg (h e rfl)]
      cases firstPlace? ps 0 e with
      | none => rfl
      | some i => simp [greedy_cons_succ]

/-- The first parameter takes the first expression, or it takes none. -/
theorem accepts_or_refuses (p : Parameter) (es : List Expr) :
    (∃ e more, es = e :: more ∧ p.kind.accepts e = true) ∨ p.Refuses es := by
  cases es with
  | nil => exact .inr (by simp [Refuses])
  | cons e es =>
      by_cases accepts : p.kind.accepts e = true
      · exact .inl ⟨e, es, rfl, accepts⟩
      · exact .inr (by simpa [Refuses] using accepts)

theorem le_of_mem_greedy {ps : List Parameter} {start i : Nat} {es : List Expr}
    (h : i ∈ greedy ps start es) : start ≤ i := by
  induction es generalizing start with
  | nil => cases h
  | cons e es ih =>
      rw [greedy] at h
      split at h
      · cases h
      · next j found =>
        have le := (accepts_of_firstPlace? found).1
        rcases List.mem_cons.mp h with rfl | h
        · exact le
        · have := ih h
          omega

theorem pairwise_greedy (ps : List Parameter) (start : Nat) (es : List Expr) :
    (greedy ps start es).Pairwise (· < ·) := by
  induction es generalizing start with
  | nil => exact .nil
  | cons e es ih =>
      rw [greedy]
      split
      · exact .nil
      · exact .cons (fun _ mem => le_of_mem_greedy mem) (ih _)

/-- No assignment puts an expression in front of where the greedy one does: the first expression
goes as far to the front as it can, and this leaves the others at least as many parameters. -/
theorem forall₂_greedy_le {ps : List Parameter} {es : List Expr} {places : List Nat}
    (h : Assignment ps es places) {start : Nat} (le : ∀ i ∈ places, start ≤ i) :
    List.Forall₂ (· ≤ ·) (greedy ps start es) places := by
  obtain ⟨increasing, accepted⟩ := h
  induction accepted generalizing start with
  | nil => exact .nil
  | @cons e i es places here _ ih =>
      obtain ⟨p, here, accepts⟩ := here
      obtain ⟨behind, increasing⟩ := List.pairwise_cons.mp increasing
      obtain ⟨j, j_le, found⟩ := exists_firstPlace?_le (le i (by simp)) here accepts
      rw [greedy, found]
      exact .cons j_le (ih (fun k mem => Nat.lt_of_le_of_lt j_le (behind k mem)) increasing)

/-- Every expression gets a place if and only if there is a parameter of its kind for each of
them, in their order. -/
theorem length_greedy_eq_iff {ps : List Parameter} {es : List Expr} :
    (greedy ps 0 es).length = es.length ↔ (es.map Kind.of).Sublist (ps.map kind) := by
  induction ps generalizing es with
  | nil => simp [greedy_nil, eq_comm]
  | cons p ps ih =>
      rcases p.accepts_or_refuses es with ⟨e, es, rfl, accepts⟩ | refuses
      · have same := Kind.accepts_iff.mp accepts
        simp [greedy_cons_of_accepts accepts, same, ih]
      · rw [greedy_cons_of_refuses refuses, List.length_map, ih]
        refine ⟨fun sub => sub.cons _, fun sub => ?_⟩
        cases es with
        | nil => simp
        | cons e es =>
            have other : Kind.of e ≠ p.kind :=
              fun same => refuses e rfl (Kind.accepts_iff.mpr same.symm)
            exact sub.of_cons_of_ne other

/-! ## Required parameters -/

theorem leavesRequired_taken {p : Parameter} {ps : List Parameter} {places : List Nat} :
    LeavesRequired (p :: ps) (0 :: places.map (· + 1)) ↔ LeavesRequired ps places := by
  constructor
  · rintro ⟨i, q, here, required, free⟩
    cases i with
    | zero => simp at free
    | succ i => exact ⟨i, q, by simpa using here, required, by simpa using free⟩
  · rintro ⟨i, q, here, required, free⟩
    exact ⟨i + 1, q, by simpa using here, required, by simpa using free⟩

theorem leavesRequired_skipped {p : Parameter} {ps : List Parameter} {places : List Nat} :
    LeavesRequired (p :: ps) (places.map (· + 1)) ↔
      p.default = none ∨ LeavesRequired ps places := by
  constructor
  · rintro ⟨i, q, here, required, free⟩
    cases i with
    | zero =>
        cases here
        exact .inl required
    | succ i => exact .inr ⟨i, q, by simpa using here, required, by simpa using free⟩
  · rintro (required | ⟨i, q, here, required, free⟩)
    · exact ⟨0, p, rfl, required, by simp⟩
    · exact ⟨i + 1, q, by simpa using here, required, by simpa using free⟩

/-! ## What is bound -/

/-- Named values for parameters, of which those at some places hold the expressions in their order,
and the others their defaults. -/
structure Filled (ps : List Parameter) (es : List Expr) (places : List Nat)
    (entries : List (String × Expr)) : Prop where
  names : entries.map Prod.fst = ps.map name
  given : List.Forall₂ (fun e i => ∃ p, ps[i]? = some p ∧ p.kind.accepts e = true ∧
    entries[i]? = some (p.name, e)) es places
  inOrder : ((entries.zipIdx.filter fun entry => entry.2 ∈ places).map fun entry => entry.1.2) = es
  default : ∀ i p, ps[i]? = some p → i ∉ places →
    ∃ e, p.default = some e ∧ entries[i]? = some (p.name, e)

namespace Filled

variable {p : Parameter} {ps : List Parameter} {e : Expr} {es : List Expr} {places : List Nat}
  {entries : List (String × Expr)}

theorem taken (h : Filled ps es places entries) (accepts : p.kind.accepts e = true) :
    Filled (p :: ps) (e :: es) (0 :: places.map (· + 1)) ((p.name, e) :: entries) where
  names := by simp [h.names]
  given := by
    refine .cons ⟨p, rfl, accepts, rfl⟩ ?_
    rw [List.forall₂_map_right_iff]
    simpa using h.given
  inOrder := by
    have rest := h.inOrder
    simp only [List.zipIdx_cons', List.filter_cons, List.filter_map, Function.comp_def] at rest ⊢
    simpa [Function.comp_def] using rest
  default := by
    intro i q here free
    cases i with
    | zero => simp at free
    | succ i => simpa using h.default i q (by simpa using here) (by simpa using free)

theorem skipped (h : Filled ps es places entries) (default : p.default = some e) :
    Filled (p :: ps) es (places.map (· + 1)) ((p.name, e) :: entries) where
  names := by simp [h.names]
  given := by
    rw [List.forall₂_map_right_iff]
    simpa using h.given
  inOrder := by
    have rest := h.inOrder
    simp only [List.zipIdx_cons', List.filter_cons, List.filter_map, Function.comp_def] at rest ⊢
    simpa [Function.comp_def] using rest
  default := by
    intro i q here free
    cases i with
    | zero =>
        cases here
        exact ⟨e, default, rfl⟩
    | succ i => simpa using h.default i q (by simpa using here) (by simpa using free)

end Filled

/-! ## The binding -/

theorem bind_cons_of_accepts {p : Parameter} {e : Expr} (h : p.kind.accepts e = true)
    (ps : List Parameter) (es : List Expr) :
    bind (p :: ps) (e :: es) = (bind ps es).map ((p.name, e) :: ·) := by
  have first : (e :: es).head?.filter p.kind.accepts = some e := by simp [Option.filter, h]
  rw [bind, first, List.tail_cons]

theorem bind_cons_of_refuses {p : Parameter} {es : List Expr} (h : p.Refuses es)
    (ps : List Parameter) :
    bind (p :: ps) es =
      match p.default with
      | some e => (bind ps es).map ((p.name, e) :: ·)
      | none => .error .missingParameter := by
  have first : es.head?.filter p.kind.accepts = none := Option.filter_eq_none_iff.mpr h
  rw [bind, first]
  cases p.default <;> rfl

/-- What the binding comes to, by what the greedy assignment leaves: an error if it leaves a
required parameter or an expression, and otherwise the values that it puts in their places. -/
theorem bind_greedy (ps : List Parameter) (es : List Expr) :
    (LeavesRequired ps (greedy ps 0 es) ∧ bind ps es = .error .missingParameter) ∨
      ¬ LeavesRequired ps (greedy ps 0 es) ∧
        (((greedy ps 0 es).length < es.length ∧ bind ps es = .error .tooManyParameters) ∨
          (greedy ps 0 es).length = es.length ∧
            ∃ entries, bind ps es = .ok entries ∧ Filled ps es (greedy ps 0 es) entries) := by
  -- on the schema: its first parameter takes the first expression or refuses it
  induction ps generalizing es with
  | nil =>
      refine .inr ⟨by simp [LeavesRequired], ?_⟩
      cases es with
      | nil => exact .inr ⟨rfl, [], rfl, rfl, .nil, rfl, by simp⟩
      | cons e es => exact .inl ⟨by simp [greedy_nil], rfl⟩
  | cons p ps ih =>
      rcases p.accepts_or_refuses es with ⟨e, es, rfl, accepts⟩ | refuses
      · rw [greedy_cons_of_accepts accepts, bind_cons_of_accepts accepts, leavesRequired_taken]
        simp only [List.length_cons, List.length_map, Nat.add_lt_add_iff_right,
          Nat.add_right_cancel_iff]
        rcases ih es with ⟨leaves, bound⟩ | ⟨leaves, ⟨lt, bound⟩ | ⟨eq, entries, bound, filled⟩⟩
        · exact .inl ⟨leaves, by rw [bound]; rfl⟩
        · exact .inr ⟨leaves, .inl ⟨lt, by rw [bound]; rfl⟩⟩
        · exact .inr ⟨leaves, .inr ⟨eq, _, by rw [bound]; rfl, filled.taken accepts⟩⟩
      · rw [greedy_cons_of_refuses refuses, bind_cons_of_refuses refuses, leavesRequired_skipped,
          List.length_map]
        cases default : p.default with
        | none => exact .inl ⟨.inl rfl, rfl⟩
        | some d =>
            simp only [reduceCtorEq, false_or]
            rcases ih es with ⟨leaves, bound⟩ | ⟨leaves, ⟨lt, bound⟩ | ⟨eq, entries, bound, filled⟩⟩
            · exact .inl ⟨leaves, by rw [bound]; rfl⟩
            · exact .inr ⟨leaves, .inl ⟨lt, by rw [bound]; rfl⟩⟩
            · exact .inr ⟨leaves, .inr ⟨eq, _, by rw [bound]; rfl, filled.skipped default⟩⟩

section Outcome

variable {ps : List Parameter} {es : List Expr}

theorem exists_bind_eq_ok_iff :
    (∃ entries, bind ps es = .ok entries) ↔
      (greedy ps 0 es).length = es.length ∧ ¬ LeavesRequired ps (greedy ps 0 es) := by
  rcases bind_greedy ps es with
    ⟨leaves, bound⟩ | ⟨leaves, ⟨lt, bound⟩ | ⟨eq, entries, bound, -⟩⟩
  · simp [bound, leaves]
  · simp [bound, Nat.ne_of_lt lt]
  · simp [bound, eq, leaves]

/-- Without required parameters, the binding fails only if the kinds do not fit. -/
theorem exists_bind_eq_error_iff (defaults : ∀ p ∈ ps, p.default ≠ none) :
    (∃ cause, bind ps es = .error cause) ↔ ¬ (es.map Kind.of).Sublist (ps.map kind) := by
  have optional : ¬ LeavesRequired ps (greedy ps 0 es) := by
    rintro ⟨i, p, here, required, -⟩
    exact defaults p (List.mem_of_getElem? here) required
  have failure : (∃ cause, bind ps es = .error cause) ↔ ¬ ∃ entries, bind ps es = .ok entries := by
    cases bind ps es <;> simp
  rw [failure, exists_bind_eq_ok_iff, length_greedy_eq_iff]
  simp [optional]

theorem filled_of_bind {entries : List (String × Expr)} (h : bind ps es = .ok entries) :
    Filled ps es (greedy ps 0 es) entries := by
  rcases bind_greedy ps es with ⟨-, bound⟩ | ⟨-, ⟨-, bound⟩ | ⟨-, _, bound, filled⟩⟩
  · cases h.symm.trans bound
  · cases h.symm.trans bound
  · cases h.symm.trans bound
    exact filled

theorem bind_eq_missingParameter_iff :
    bind ps es = .error .missingParameter ↔ LeavesRequired ps (greedy ps 0 es) := by
  rcases bind_greedy ps es with
    ⟨leaves, bound⟩ | ⟨leaves, ⟨-, bound⟩ | ⟨-, entries, bound, -⟩⟩ <;> simp [bound, leaves]

theorem bind_eq_tooManyParameters_iff :
    bind ps es = .error .tooManyParameters ↔
      ¬ LeavesRequired ps (greedy ps 0 es) ∧ ¬ (es.map Kind.of).Sublist (ps.map kind) := by
  rw [← length_greedy_eq_iff]
  rcases bind_greedy ps es with
    ⟨leaves, bound⟩ | ⟨leaves, ⟨lt, bound⟩ | ⟨eq, entries, bound, -⟩⟩
  · simp [bound, leaves]
  · simp [bound, leaves, Nat.ne_of_lt lt]
  · simp [bound, eq]

/-- The two things that can be wrong are told apart by their wording. -/
theorem exists_message_iff {cause : Cause}
    (h : cause = .missingParameter ∨ cause = .tooManyParameters) :
    (∃ other, bind ps es = .error other ∧ other.message = cause.message) ↔
      bind ps es = .error cause := by
  constructor
  · rintro ⟨other, failed, same⟩
    have told : Cause.missingParameter.message ≠ Cause.tooManyParameters.message := by decide
    rw [failed]
    rcases cause_of_bind failed with rfl | rfl <;> rcases h with rfl | rfl
    · rfl
    · exact absurd same told
    · exact absurd same.symm told
    · rfl
  · exact fun failed => ⟨cause, failed, rfl⟩

end Outcome

/-- The greedy assignment is one if every expression gets a place. -/
theorem Filled.assignment {ps : List Parameter} {es : List Expr} {places : List Nat}
    {entries : List (String × Expr)} (h : Filled ps es places entries)
    (increasing : places.Pairwise (· < ·)) : Assignment ps es places :=
  ⟨increasing, h.given.imp fun _ _ ⟨p, here, accepts, _⟩ => ⟨p, here, accepts⟩⟩

end Parameter

theorem Schema.exists_bind_eq_ok_iff {schema : Schema} {es : List Expr} :
    (∃ parameters, schema.bind es = .ok parameters) ↔
      ∃ entries, Parameter.bind schema.parameters es = .ok entries := by
  simp only [Schema.bind_eq_ok_iff]
  constructor
  · rintro ⟨parameters, bound⟩
    exact ⟨parameters.entries, bound⟩
  · rintro ⟨entries, bound⟩
    have names := Parameter.map_fst_of_bind bound
    exact ⟨⟨entries, names ▸ schema.names_nodup⟩, bound⟩

/-- The binding is the leftmost assignment. It succeeds if and only if the greedy assignment gives
every expression a parameter and leaves no required one. Then the parameters are filled in their
order, those of the assignment by the expressions and the others by their defaults, and no other
assignment puts an expression further to the front. Expressions can only be too many if their kinds
are no subsequence of those of the parameters, and no binding without required parameters fails for
another reason. A required parameter that the greedy assignment leaves is missing, whatever other
assignments there are. -/
theorem bind_leftmost (schema : Schema) (es : List Expr) :
    let ps := schema.parameters
    let places := Parameter.greedy ps 0 es
    let kindsFit := (es.map Parameter.Kind.of).Sublist (ps.map Parameter.kind)
    ((∃ parameters, schema.bind es = .ok parameters) ↔
        places.length = es.length ∧ ¬ Parameter.LeavesRequired ps places) ∧
      (∀ parameters, schema.bind es = .ok parameters →
        Parameter.Assignment ps es places ∧ Parameter.Filled ps es places parameters.entries ∧
          ∀ others, Parameter.Assignment ps es others → List.Forall₂ (· ≤ ·) places others) ∧
      ((∃ cause, schema.bind es = .error cause ∧ cause.message = "Too many parameters") ↔
        ¬ Parameter.LeavesRequired ps places ∧ ¬ kindsFit) ∧
      ((∀ p ∈ ps, p.default ≠ none) → ((∃ cause, schema.bind es = .error cause) ↔ ¬ kindsFit)) ∧
      ((∃ cause, schema.bind es = .error cause ∧
          cause.message = "A required parameter is missing") ↔
        Parameter.LeavesRequired ps places) := by
  intro ps places kindsFit
  simp only [Schema.bind_eq_error_iff]
  refine ⟨Schema.exists_bind_eq_ok_iff.trans Parameter.exists_bind_eq_ok_iff, ?_, ?_,
    Parameter.exists_bind_eq_error_iff, ?_⟩
  · intro parameters bound
    have filled := Parameter.filled_of_bind (Schema.bind_eq_ok_iff.mp bound)
    exact ⟨filled.assignment (Parameter.pairwise_greedy ps 0 es), filled,
      fun others other => Parameter.forall₂_greedy_le other fun _ _ => Nat.zero_le _⟩
  · exact (Parameter.exists_message_iff (.inr rfl)).trans Parameter.bind_eq_tooManyParameters_iff
  · exact (Parameter.exists_message_iff (.inl rfl)).trans Parameter.bind_eq_missingParameter_iff

/-- An optional value takes the only value, although the required one behind it would have been an
assignment as well; of two values, each gets one. -/
theorem bind_leftmost_required :
    let schema : Schema := ⟨[⟨"type", .value, some .null⟩, ⟨"index", .value, none⟩], by decide⟩
    (Parameter.Assignment schema.parameters [.integer 3] [1] ∧
        ¬ Parameter.LeavesRequired schema.parameters [1] ∧
        ∃ cause, schema.bind [.integer 3] = .error cause ∧
          cause.message = "A required parameter is missing") ∧
      ∃ parameters, schema.bind [.integer 3, .integer 4] = .ok parameters ∧
        Parameter.Filled schema.parameters [.integer 3, .integer 4] [0, 1] parameters.entries := by
  intro schema
  have free : ¬ Parameter.LeavesRequired schema.parameters [1] := by
    rintro ⟨i, p, here, required, free⟩
    match i with
    | 0 => cases here; cases required
    | 1 => simp at free
    | i + 2 => simp [schema] at here
  have one : Parameter.greedy schema.parameters 0 [.integer 3] = [0] := by rfl
  have two : Parameter.greedy schema.parameters 0 [.integer 3, .integer 4] = [0, 1] := by rfl
  refine ⟨⟨⟨by simp, .cons ⟨_, rfl, rfl⟩ .nil⟩, free, ?_⟩, ?_⟩
  · obtain ⟨-, -, -, -, missing⟩ := bind_leftmost schema [.integer 3]
    rw [one] at missing
    exact missing.mpr ⟨1, _, rfl, rfl, by simp⟩
  · obtain ⟨-, filled, -⟩ := bind_leftmost schema [.integer 3, .integer 4]
    rw [two] at filled
    have bound : schema.bind [.integer 3, .integer 4] =
        .ok ⟨[("type", .integer 3), ("index", .integer 4)], by decide⟩ :=
      Schema.bind_eq_ok_iff.mpr rfl
    exact ⟨_, bound, (filled _ bound).2.1⟩

end SheetMarkup
