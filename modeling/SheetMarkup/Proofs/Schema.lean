import Mathlib.Data.List.Forall2
import SheetMarkup.Schema

/-!
# Binding parameters

Parameters of distinct names make a schema (`Schema.ofList_eq_ok`), and values that fit them one by
one are bound to them as they are (`Schema.bind_of_fits`). The other way round, what is bound fits
if the defaults do (`Parameter.fits_of_bind`), and it is a value that was given or a default
(`Parameter.mem_or_default_of_bind`).
-/

namespace SheetMarkup

namespace Schema

/-- Parameters are declared as they are, or not at all. -/
theorem parameters_of_ofList {ps : List Parameter} {schema : Schema} (h : ofList ps = .ok schema) :
    schema.parameters = ps := by
  have declared : ∀ (ps : List Parameter) (before : Schema),
      ps.foldlM declare before = .ok schema → schema.parameters = before.parameters ++ ps := by
    intro ps
    induction ps with
    | nil =>
        intro before h
        cases h
        simp
    | cons p ps ih =>
        intro before h
        rw [List.foldlM_cons, declare] at h
        split at h
        · cases h
        · rw [ih _ h]
          simp
  exact declared ps empty h

/-- Declaring parameters with new names adds them at the end. -/
theorem foldlM_declare_eq_ok (schema : Schema) (ps : List Parameter)
    (nodup : ((schema.parameters ++ ps).map Parameter.name).Nodup) :
    ps.foldlM declare schema = .ok ⟨schema.parameters ++ ps, nodup⟩ := by
  induction ps generalizing schema with
  | nil =>
      obtain ⟨parameters, _⟩ := schema
      simp only [List.append_nil]
      rfl
  | cons p ps ih =>
      have fresh : p.name ∉ schema.parameters.map Parameter.name := by
        intro mem
        rw [List.map_append, List.nodup_append] at nodup
        exact nodup.2.2 _ mem _ (by simp) rfl
      have grown : ((schema.parameters ++ [p] ++ ps).map Parameter.name).Nodup := by
        simpa using nodup
      rw [List.foldlM_cons, declare, dif_neg fresh]
      change ps.foldlM declare ⟨schema.parameters ++ [p], _⟩ = _
      rw [ih _ grown]
      simp

/-- Parameters of distinct names are declared as they are. -/
theorem ofList_eq_ok {ps : List Parameter} (nodup : (ps.map Parameter.name).Nodup) :
    ofList ps = .ok ⟨ps, nodup⟩ := foldlM_declare_eq_ok empty ps nodup

/-- Parameters cannot be declared only if a name is declared twice. -/
theorem exists_eq_declaredTwice {ps : List Parameter} {cause : Cause}
    (h : ofList ps = .error cause) : ∃ name, cause = .declaredTwice name := by
  have declared : ∀ (ps : List Parameter) (before : Schema),
      ps.foldlM declare before = .error cause → ∃ name, cause = .declaredTwice name := by
    intro ps
    induction ps with
    | nil =>
        intro before h
        cases h
    | cons p ps ih =>
        intro before h
        rw [List.foldlM_cons, declare] at h
        split at h
        · cases h
          exact ⟨p.name, rfl⟩
        · exact ih _ h
  exact declared ps empty h

theorem bind_eq_error_iff {schema : Schema} {es : List Expr} {cause : Cause} :
    schema.bind es = .error cause ↔ Parameter.bind schema.parameters es = .error cause := by
  unfold bind
  split
  · next other failed => simp [failed]
  · next entries bound => simp [bound]

theorem bind_eq_ok_iff {schema : Schema} {es : List Expr} {parameters : OrderedMap Expr} :
    schema.bind es = .ok parameters ↔
      Parameter.bind schema.parameters es = .ok parameters.entries := by
  unfold bind
  split
  · next cause failed => simp [failed]
  · next entries bound =>
    constructor
    · intro same
      cases same
      exact bound
    · intro same
      exact congrArg Except.ok (OrderedMap.ext (Except.ok.inj (bound.symm.trans same)))

end Schema

namespace Parameter

/-- A named value is one for a parameter if it has its name and is accepted by it. -/
def Fits (p : Parameter) (entry : String × Expr) : Prop :=
  p.name = entry.1 ∧ p.kind.accepts entry.2 = true

/-- The names of values that fit parameters are those of the parameters. -/
theorem map_name_of_fits {ps : List Parameter} {entries : List (String × Expr)}
    (h : List.Forall₂ Fits ps entries) : ps.map name = entries.map Prod.fst := by
  induction h with
  | nil => rfl
  | cons fits _ ih => rw [List.map_cons, List.map_cons, fits.1, ih]

theorem bind_of_fits {ps : List Parameter} {entries : List (String × Expr)}
    (h : List.Forall₂ Fits ps entries) : bind ps (entries.map Prod.snd) = .ok entries := by
  induction h with
  | nil => rfl
  | @cons p entry ps entries fits _ ih =>
      obtain ⟨named, accepted⟩ := fits
      have first : ((entry :: entries).map Prod.snd).head?.filter p.kind.accepts =
          some entry.2 := by
        simp [Option.filter, accepted]
      rw [bind, first, List.map_cons, List.tail_cons]
      simp only [ih, named]
      rfl

/-- A parameter gets the first value or its default, and the others get the other values. -/
theorem bind_cons_eq_ok {p : Parameter} {ps : List Parameter} {es : List Expr}
    {bound : List (String × Expr)} (h : bind (p :: ps) es = .ok bound) :
    ∃ e more others, bound = (p.name, e) :: more ∧ bind ps others = .ok more ∧ others ⊆ es ∧
      ((e ∈ es ∧ p.kind.accepts e = true) ∨ p.default = some e) := by
  simp only [bind] at h
  split at h
  · next e taken =>
    cases rest : bind ps es.tail with
    | error => simp [rest, Except.map] at h
    | ok more =>
        simp only [rest, Except.map, Except.ok.injEq] at h
        obtain ⟨first, accepted⟩ := Option.filter_eq_some_iff.mp taken
        exact ⟨e, more, es.tail, h.symm, rest, (List.tail_sublist es).subset,
          .inl ⟨List.mem_of_mem_head? first, accepted⟩⟩
  · next e _ default =>
    cases rest : bind ps es with
    | error => simp [rest, Except.map] at h
    | ok more =>
        simp only [rest, Except.map, Except.ok.injEq] at h
        exact ⟨e, more, es, h.symm, rest, List.Subset.refl es, .inr default⟩
  · cases h

/-- Expressions cannot be bound only if a parameter is left without one, or an expression without a
parameter. -/
theorem cause_of_bind {ps : List Parameter} {es : List Expr} {cause : Cause}
    (h : bind ps es = .error cause) : cause = .missingParameter ∨ cause = .tooManyParameters := by
  induction ps generalizing es with
  | nil =>
      cases es <;> cases h
      exact .inr rfl
  | cons p ps ih =>
      simp only [bind] at h
      split at h
      · cases rest : bind ps es.tail with
        | ok => simp [rest, Except.map] at h
        | error other =>
            simp only [rest, Except.map, Except.error.injEq] at h
            subst h
            exact ih rest
      · cases rest : bind ps es with
        | ok => simp [rest, Except.map] at h
        | error other =>
            simp only [rest, Except.map, Except.error.injEq] at h
            subst h
            exact ih rest
      · cases h
        exact .inl rfl

/-- What is bound to parameters fits them if their defaults do. -/
theorem fits_of_bind {ps : List Parameter} {es : List Expr} {bound : List (String × Expr)}
    (h : bind ps es = .ok bound)
    (defaults : ∀ p ∈ ps, ∀ e ∈ p.default, p.kind.accepts e = true) :
    List.Forall₂ Fits ps bound := by
  induction ps generalizing es bound with
  | nil => cases es <;> cases h; exact .nil
  | cons p ps ih =>
      obtain ⟨e, more, others, rfl, rest, -, ⟨-, accepted⟩ | default⟩ := bind_cons_eq_ok h
      · exact .cons ⟨rfl, accepted⟩ (ih rest fun q mem => defaults q (by simp [mem]))
      · have accepted := defaults p (by simp) e default
        exact .cons ⟨rfl, accepted⟩ (ih rest fun q mem => defaults q (by simp [mem]))

/-- What is bound to parameters is given or is a default. -/
theorem mem_or_default_of_bind {ps : List Parameter} {es : List Expr}
    {bound : List (String × Expr)} (h : bind ps es = .ok bound) :
    ∀ entry ∈ bound, entry.2 ∈ es ∨ ∃ p ∈ ps, p.default = some entry.2 := by
  induction ps generalizing es bound with
  | nil => cases es <;> cases h; simp
  | cons p ps ih =>
      obtain ⟨e, more, others, rfl, rest, subset, origin⟩ := bind_cons_eq_ok h
      intro entry mem
      rcases List.mem_cons.mp mem with rfl | mem
      · rcases origin with ⟨given, -⟩ | default
        · exact .inl given
        · exact .inr ⟨p, by simp, default⟩
      · rcases ih rest entry mem with given | ⟨q, q_mem, default⟩
        · exact .inl (subset given)
        · exact .inr ⟨q, by simp [q_mem], default⟩

end Parameter

/-- Values that fit the parameters of a schema are bound to them. -/
theorem Schema.bind_of_fits {schema : Schema} {parameters : OrderedMap Expr}
    (h : List.Forall₂ Parameter.Fits schema.parameters parameters.entries) :
    schema.bind (parameters.entries.map Prod.snd) = .ok parameters :=
  Schema.bind_eq_ok_iff.mpr (Parameter.bind_of_fits h)

end SheetMarkup
