import SheetMarkup.Proofs.Expr.Machine

/-!
# The longest expression

`Expr.read` takes the longest beginning of a token list that the grammar derives an expression from,
and fails if there is none (`read_longest`). A run of the machine is described for every state it
can start in (`Reader.run_spec`): it remembers the last state at which an expression was complete,
and as it never goes back that one belongs to the longest row of tokens it accepts. Where no row is
accepted, the tokens are dead from that state on (`Reader.Dead`).
-/

namespace SheetMarkup

open Grammar

namespace Token

/-- The kinds of tokens. -/
def kinds (tokens : List Token) : List Kind := tokens.map kind

@[simp] theorem kinds_nil : kinds [] = [] := rfl

@[simp] theorem kinds_cons (token : Token) (tokens : List Token) :
    kinds (token :: tokens) = token.kind :: kinds tokens := rfl

@[simp] theorem kinds_append (a b : List Token) : kinds (a ++ b) = kinds a ++ kinds b :=
  List.map_append

end Token

open Token (kinds)

namespace Expr.Reader

variable {state next : State}

theorem accepts_cons {k : Token.Kind} (h : step state k = some next) (ks : List Token.Kind)
    (e : Expr) : Accepts state (k :: ks) e ↔ Accepts next ks e := by
  simp only [Accepts, steps_cons, h, Option.bind_some]

theorem accepts_nil (state : State) (e : Expr) :
    Accepts state [] e ↔ state.value? = some e := by
  simp [Accepts, steps_nil]

/-! ## Where nothing can be accepted -/

/-- From a state no beginning of some tokens leads to a complete expression. -/
def Dead (state : State) (ks : List Token.Kind) : Prop :=
  ∀ taken e, taken <+: ks → taken ≠ [] → ¬ Accepts state taken e

theorem Dead.nil (state : State) : Dead state [] := by
  intro taken e begins ne
  exact absurd (List.prefix_nil.mp begins) ne

theorem Dead.of_step_eq_none {k : Token.Kind} {ks : List Token.Kind} (h : step state k = none) :
    Dead state (k :: ks) := by
  intro taken e begins ne accepted
  cases taken with
  | nil => exact ne rfl
  | cons first taken =>
      obtain ⟨rfl, -⟩ := List.cons_prefix_cons.mp begins
      obtain ⟨state', run, -⟩ := accepted
      rw [steps_cons, h] at run
      cases run

theorem Dead.of_step {k : Token.Kind} {ks : List Token.Kind} (h : step state k = some next)
    (value : next.value? = none) (dead : Dead next ks) : Dead state (k :: ks) := by
  intro taken e begins ne accepted
  cases taken with
  | nil => exact ne rfl
  | cons first taken =>
      obtain ⟨rfl, behind⟩ := List.cons_prefix_cons.mp begins
      rw [accepts_cons h] at accepted
      cases taken with
      | nil =>
          rw [accepts_nil, value] at accepted
          cases accepted
      | cons second taken => exact dead _ e behind (by simp) accepted

/-! ## The longest row that is accepted -/

/-- Of the beginnings of a token list, this one is accepted, and no longer one is. -/
def Longest (state : State) (tokens taken : List Token) (e : Expr) : Prop :=
  taken ≠ [] ∧ taken <+: tokens ∧ Accepts state (kinds taken) e ∧
    ∀ more e', more <+: tokens → Accepts state (kinds more) e' → more.length ≤ taken.length

theorem Longest.cons {token : Token} {tokens taken : List Token} {e : Expr}
    (h : step state token.kind = some next) (longest : Longest next tokens taken e) :
    Longest state (token :: tokens) (token :: taken) e := by
  obtain ⟨-, begins, accepted, others⟩ := longest
  refine ⟨by simp, List.cons_prefix_cons.mpr ⟨rfl, begins⟩, (accepts_cons h _ e).mpr accepted, ?_⟩
  intro more e' begins' accepted'
  cases more with
  | nil => exact Nat.zero_le _
  | cons first more =>
      obtain ⟨rfl, behind⟩ := List.cons_prefix_cons.mp begins'
      apply Nat.succ_le_succ
      exact others more e' behind ((accepts_cons h _ e').mp accepted')

/-- A token alone is the longest row if nothing comes of what follows it. -/
theorem Longest.of_dead {token : Token} {tokens : List Token} {e : Expr}
    (h : step state token.kind = some next) (value : next.value? = some e)
    (dead : Dead next (kinds tokens)) : Longest state (token :: tokens) [token] e := by
  refine ⟨by simp, by simp, ?_, ?_⟩
  · rw [Token.kinds_cons, accepts_cons h, Token.kinds_nil, accepts_nil, value]
  · intro more e' begins accepted
    cases more with
    | nil => exact Nat.zero_le _
    | cons first more =>
        obtain ⟨rfl, behind⟩ := List.cons_prefix_cons.mp begins
        cases more with
        | nil => exact Nat.le_refl _
        | cons second more =>
            exact absurd ((accepts_cons h _ e').mp accepted)
              (dead _ e' (behind.map Token.kind) (by simp))

/-- A run gives the longest row of tokens that it accepts, or else what it had before. -/
theorem run_spec (state : State) (count : Nat) (best : Option (Expr × Nat))
    (tokens : List Token) :
    (∃ taken e, Longest state tokens taken e ∧
        run state count best tokens = .ok (e, count + taken.length)) ∨
      (Dead state (kinds tokens) ∧
        (∀ result, best = some result → run state count best tokens = .ok result) ∧
        (best = none → ∃ refusal, run state count best tokens = .error refusal)) := by
  induction tokens generalizing state count best with
  | nil =>
      refine .inr ⟨.nil state, ?_, ?_⟩
      · rintro result rfl
        rfl
      · rintro rfl
        exact ⟨_, rfl⟩
  | cons token tokens ih =>
      cases hs : step state token.kind with
      | none =>
          refine .inr ⟨.of_step_eq_none hs, ?_, ?_⟩
          · rintro result rfl
            simp only [run, hs, run.settle]
          · rintro rfl
            simp only [run, hs, run.settle]
            exact ⟨_, rfl⟩
      | some next =>
          simp only [run, hs]
          rcases ih next (count + 1) ((next.value?.map fun e => (e, count + 1)).or best) with
            ⟨taken, e, longest, result⟩ | ⟨dead, found, lost⟩
          · refine .inl ⟨token :: taken, e, longest.cons hs, ?_⟩
            rw [result, List.length_cons, Nat.add_assoc, Nat.add_comm 1]
          -- nothing comes of the rest: the expression is complete here, or was before
          cases value : next.value? with
          | some e =>
              refine .inl ⟨[token], e, .of_dead hs value dead, ?_⟩
              simp only [value, Option.map_some, Option.some_or] at found
              simpa [value] using found (e, count + 1) rfl
          | none =>
              simp only [value, Option.map_none, Option.none_or] at found lost ⊢
              exact .inr ⟨.of_step hs value dead, found, lost⟩

end Expr.Reader

/-- A beginning of a token list from which the grammar derives an expression, and no longer one from
which it derives any. -/
def LongestExpression (tokens taken : List Token) (e : Expr) : Prop :=
  taken <+: tokens ∧ Expression (kinds taken) e ∧
    ∀ more e', more <+: tokens → Expression (kinds more) e' → more.length ≤ taken.length

namespace Grammar

/-- A row of tokens spells at most one expression. -/
theorem Expression.unique {ks : List Token.Kind} {e e' : Expr} (h : Expression ks e)
    (h' : Expression ks e') : e = e' := by
  obtain ⟨state, hs, value⟩ := Expr.Reader.accepts_start_iff.mpr h
  obtain ⟨state', hs', value'⟩ := Expr.Reader.accepts_start_iff.mpr h'
  cases hs.symm.trans hs'
  exact Option.some.inj (value.symm.trans value')

theorem Expression.kinds_ne_nil {tokens : List Token} {e : Expr}
    (h : Expression (kinds tokens) e) : tokens ≠ [] := by
  rintro rfl
  exact h.inner.1 rfl

end Grammar

namespace Expr

/-- Reading gives the longest expression, or fails as there is none. -/
theorem read_spec (tokens : List Token) :
    (∃ taken e, LongestExpression tokens taken e ∧ read tokens = .ok (e, taken.length)) ∨
      ((∀ taken e, taken <+: tokens → ¬ Expression (kinds taken) e) ∧
        ∃ refusal, read tokens = .error refusal) := by
  rcases Reader.run_spec Reader.start 0 none tokens with
    ⟨taken, e, ⟨-, begins, accepted, longest⟩, result⟩ | ⟨dead, -, lost⟩
  · refine .inl ⟨taken, e, ⟨begins, Reader.accepts_start_iff.mp accepted, ?_⟩, ?_⟩
    · intro more e' begins' derived
      exact longest more e' begins' (Reader.accepts_start_iff.mpr derived)
    · rw [read, result, Nat.zero_add]
  · refine .inr ⟨?_, lost rfl⟩
    intro taken e begins derived
    exact dead _ e (begins.map Token.kind) derived.inner.1 (Reader.accepts_start_iff.mpr derived)

/-- What is read is the longest expression. -/
theorem read_eq_ok_iff {tokens : List Token} {e : Expr} {n : Nat} :
    read tokens = .ok (e, n) ↔ ∃ taken, LongestExpression tokens taken e ∧ taken.length = n := by
  constructor
  · intro h
    rcases read_spec tokens with ⟨taken, e', longest, result⟩ | ⟨-, refusal, result⟩
    · cases result.symm.trans h
      exact ⟨taken, longest, rfl⟩
    · cases result.symm.trans h
  · rintro ⟨taken, ⟨begins, derived, longest⟩, rfl⟩
    rcases read_spec tokens with ⟨taken', e', ⟨begins', derived', longest'⟩, result⟩ | ⟨never, -⟩
    · have same : taken'.length = taken.length :=
        Nat.le_antisymm (longest taken' e' begins' derived') (longest' taken e begins derived)
      have equal : taken' = taken := by
        rw [List.prefix_iff_eq_take.mp begins', List.prefix_iff_eq_take.mp begins, same]
      subst equal
      rw [result, derived'.unique derived]
    · exact absurd derived (never taken e begins)

theorem exists_read_eq_error_iff {tokens : List Token} :
    (∃ refusal, read tokens = .error refusal) ↔
      ∀ taken e, taken <+: tokens → ¬ Expression (kinds taken) e := by
  constructor
  · rintro ⟨refusal, failed⟩ taken e begins derived
    rcases read_spec tokens with ⟨_, _, _, result⟩ | ⟨never, -⟩
    · cases result.symm.trans failed
    · exact never taken e begins derived
  · intro never
    rcases read_spec tokens with ⟨taken, e, longest, -⟩ | ⟨-, failed⟩
    · exact absurd longest.2.1 (never taken e longest.1)
    · exact failed

/-- An expression is read if and only if a beginning of the tokens spells one. It is then the one
that the longest such beginning spells, with the number of its tokens; the row of tokens spells no
other expression, is not empty, and lies inside of a tag. Reading fails if and only if no beginning
spells an expression. -/
theorem read_longest (tokens : List Token) :
    ((∃ e n, read tokens = .ok (e, n)) ↔
        ∃ taken e, taken ≠ [] ∧ taken <+: tokens ∧ Expression (kinds taken) e) ∧
      (∀ e n, read tokens = .ok (e, n) ↔
        ∃ taken, LongestExpression tokens taken e ∧ taken.length = n ∧ 1 ≤ n ∧
          (∀ e', Expression (kinds taken) e' → e' = e) ∧ ∀ token ∈ taken, token.kind.IsInner) ∧
      ((∃ refusal, read tokens = .error refusal) ↔
        ∀ taken e, taken <+: tokens → ¬ Expression (kinds taken) e) := by
  refine ⟨⟨?_, ?_⟩, fun e n => ⟨?_, ?_⟩, exists_read_eq_error_iff⟩
  · rintro ⟨e, n, h⟩
    obtain ⟨taken, longest, -⟩ := read_eq_ok_iff.mp h
    exact ⟨taken, e, longest.2.1.kinds_ne_nil, longest.1, longest.2.1⟩
  · rintro ⟨taken, e, -, begins, derived⟩
    rcases read_spec tokens with ⟨taken', e', -, result⟩ | ⟨never, -⟩
    · exact ⟨e', _, result⟩
    · exact absurd derived (never taken e begins)
  · intro h
    obtain ⟨taken, longest, rfl⟩ := read_eq_ok_iff.mp h
    refine ⟨taken, longest, rfl, ?_, fun e' derived => derived.unique longest.2.1, ?_⟩
    · exact List.length_pos_iff.mpr longest.2.1.kinds_ne_nil
    · intro token mem
      exact longest.2.1.inner.2 _ (List.mem_map_of_mem mem)
  · rintro ⟨taken, longest, count, -⟩
    exact read_eq_ok_iff.mpr ⟨taken, longest, count⟩

/-- A name before a list of one item has an index, before a list of two it stands alone. -/
example :
    read ([.name "a", .symbol .openBracket, .name "b", .symbol .closeBracket].map (⟨·, 1⟩)) =
        .ok (.index (.name "a") (.name "b"), 4) ∧
      read ([.name "a", .symbol .openBracket, .name "b", .symbol .comma, .name "c",
          .symbol .closeBracket].map (⟨·, 1⟩)) = .ok (.name "a", 1) :=
  ⟨rfl, rfl⟩

end Expr

end SheetMarkup
