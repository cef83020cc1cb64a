import SheetMarkup.Cause
import SheetMarkup.Expr.Basic
import SheetMarkup.OrderedMap

/-!
# Parameters of directives

A directive declares parameters, each for arrays or for other values. The expressions written in its
tag are bound to them in order: every parameter takes the next expression if it accepts it, and its
default otherwise. A result of `Schema.bind` has exactly the declared names, in their order.
-/

namespace SheetMarkup

/-- The expressions that a parameter is for. -/
inductive Parameter.Kind where
  | array
  | value
deriving DecidableEq, Repr

/-- A declared parameter. One without default is required. -/
structure Parameter where
  name : String
  kind : Parameter.Kind
  default : Option Expr

/-- Declared parameters of distinct names. -/
structure Schema where
  parameters : List Parameter
  names_nodup : (parameters.map Parameter.name).Nodup

namespace Parameter

/-- Whether a parameter of this kind accepts an expression: an array literal is for arrays, all else
for values. -/
def Kind.accepts : Kind → Expr → Bool
  | .array, e => e.isArray
  | .value, e => !e.isArray

/-- Binds expressions to parameters, front to back. -/
def bind : List Parameter → List Expr → Except Cause (List (String × Expr))
  | [], [] => .ok []
  | [], _ :: _ => .error .tooManyParameters
  | p :: ps, es =>
    match es.head?.filter p.kind.accepts, p.default with
    | some e, _ => (bind ps es.tail).map ((p.name, e) :: ·)
    | none, some e => (bind ps es).map ((p.name, e) :: ·)
    | none, none => .error .missingParameter

/-- Binding gives every parameter a value, in order. -/
theorem map_fst_of_bind {ps : List Parameter} {es : List Expr} {bound : List (String × Expr)}
    (h : bind ps es = .ok bound) : bound.map Prod.fst = ps.map name := by
  induction ps generalizing es bound with
  | nil => cases es <;> cases h; rfl
  | cons p ps ih =>
    simp only [bind] at h
    split at h
    · cases hb : bind ps es.tail with
      | error c => simp [hb, Except.map] at h
      | ok more =>
        simp only [hb, Except.map, Except.ok.injEq] at h
        subst h
        simp [ih hb]
    · cases hb : bind ps es with
      | error c => simp [hb, Except.map] at h
      | ok more =>
        simp only [hb, Except.map, Except.ok.injEq] at h
        subst h
        simp [ih hb]
    · cases h

end Parameter

namespace Schema

/-- No parameters. -/
def empty : Schema := ⟨[], by simp⟩

/-- Declares one more parameter, whose name must be new. -/
def declare (schema : Schema) (p : Parameter) : Except Cause Schema :=
  if fresh : p.name ∈ schema.parameters.map Parameter.name then .error (.declaredTwice p.name)
  else
    .ok ⟨schema.parameters ++ [p], by
      rw [List.map_append, List.nodup_append]
      refine ⟨schema.names_nodup, by simp, ?_⟩
      intro a ha b hb
      simp only [List.map_cons, List.map_nil, List.mem_singleton] at hb
      rintro rfl
      exact fresh (hb ▸ ha)⟩

/-- Declares parameters one after another. -/
def ofList (ps : List Parameter) : Except Cause Schema := ps.foldlM declare empty

/-- Binds the expressions of a tag to the parameters. -/
def bind (schema : Schema) (es : List Expr) : Except Cause (OrderedMap Expr) :=
  match bound : Parameter.bind schema.parameters es with
  | .error cause => .error cause
  | .ok entries =>
    .ok ⟨entries, by rw [Parameter.map_fst_of_bind bound]; exact schema.names_nodup⟩

end Schema

end SheetMarkup
