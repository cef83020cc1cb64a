import Mathlib.Tactic.Simproc.ExistsAndEq
import SheetMarkup.Proofs.Expr.Longest
import SheetMarkup.Template.Reader

/-!
# What the readings read

A reading that succeeds has taken some tokens off the stream, which then goes on where they end.
Each reading is described once, as an equivalence: it gives a value and leaves a stream if and only
if the stream before was some row of tokens with that one behind it, and the row spells the value.
The equivalences serve in both directions, to take a reading apart and to show that one succeeds.
-/

namespace SheetMarkup

open Grammar
open Token (kinds)

namespace TokenStream

/-! ## Tokens in front of a stream -/

/-- The stream that begins with some tokens and goes on as another one. -/
def prepend (tokens : List Token) (s : TokenStream) : TokenStream :=
  { s with ahead := tokens ++ s.ahead }

variable (s : TokenStream) (tokens more : List Token) (token : Token)

theorem prepend_append : prepend (tokens ++ more) s = prepend tokens (prepend more s) := by
  simp [prepend]

@[simp] theorem current_prepend_cons : (prepend (token :: tokens) s).current = token := rfl

@[simp] theorem remaining_prepend : (prepend tokens s).remaining = tokens ++ s.remaining := by
  simp [prepend, remaining, eof]

@[simp] theorem drop_prepend : (prepend tokens s).drop tokens.length = s := by
  simp [prepend, drop]

variable {s} {tokens} {token}

/-- A current token other than the end stands in front of the stream behind it. -/
theorem eq_prepend_advance (h : s.current.kind ≠ .eof) :
    s = prepend [s.current] s.advance := by
  obtain ⟨ahead, endLine⟩ := s
  cases ahead with
  | nil => exact absurd rfl h
  | cons => rfl

/-- A stream that stands at a token of some kind, other than the end, begins with it. -/
theorem exists_eq_prepend {kind : Token.Kind} (h : s.current.kind = kind) (inside : kind ≠ .eof) :
    ∃ line rest, s = prepend [⟨kind, line⟩] rest := by
  have ahead : s = prepend [s.current] s.advance := eq_prepend_advance (h ▸ inside)
  refine ⟨s.current.line, s.advance, ?_⟩
  rw [← h]
  exact ahead

theorem prepend_singleton_eq_iff {s' : TokenStream} (h : s.current.kind ≠ .eof) :
    s = prepend [token] s' ↔ s.current = token ∧ s.advance = s' := by
  constructor
  · rintro rfl
    exact ⟨rfl, rfl⟩
  · rintro ⟨rfl, rfl⟩
    exact eq_prepend_advance h

theorem exists_remaining_eq (s : TokenStream) : ∃ tail, s.remaining = s.current :: tail := by
  obtain ⟨ahead, endLine⟩ := s
  cases ahead <;> exact ⟨_, rfl⟩

theorem ofList_append_eof (init : List Token) (line : Nat) :
    ofList (init ++ [⟨.eof, line⟩]) = ⟨init, line⟩ := by
  simp [ofList]

/-- A row of tokens at the beginning of what remains, the end not among them, is in front. -/
theorem eq_prepend_of_prefix (begins : tokens <+: s.remaining)
    (inner : ∀ token ∈ tokens, token.kind ≠ .eof) :
    s = prepend tokens (s.drop tokens.length) := by
  obtain ⟨ahead, endLine⟩ := s
  rcases List.prefix_concat_iff.mp begins with whole | begins
  -- what remains ends with the end, which is not among the tokens
  · exact absurd rfl (inner (eof ⟨ahead, endLine⟩) (by simp [whole]))
  · obtain ⟨rest, rfl⟩ := begins
    simp [prepend, drop]

end TokenStream

/-! ## The longest expression before other tokens -/

namespace Grammar

theorem Expression.isInner {row : List Token} {e : Expr} (h : Expression (kinds row) e) :
    ∀ token ∈ row, token.kind.IsInner :=
  fun _ mem => h.inner.2 _ (List.mem_map_of_mem mem)

end Grammar

namespace Token.Kind

theorem not_isInner_closing (form : TagForm) : ¬ (closing form).IsInner := id

theorem IsInner.ne_eof {kind : Token.Kind} (h : kind.IsInner) : kind ≠ .eof := by
  rintro rfl
  exact h

theorem IsInner.ne_closing {kind : Token.Kind} (h : kind.IsInner) (form : TagForm) :
    kind ≠ .closing form := by
  rintro rfl
  exact h

end Token.Kind

/-- A beginning of a list without a certain item ends before that item. -/
theorem prefix_of_notMem {α : Type} {a : α} {l before behind : List α} (h : a ∉ l)
    (begins : l <+: before ++ a :: behind) : l <+: before := by
  rcases List.prefix_or_prefix_of_prefix begins (List.prefix_append before _) with
    begins | ⟨t, rfl⟩
  · exact begins
  · cases t with
    | nil => simp
    | cons b t =>
        have begins' := (List.prefix_append_right_inj before).mp begins
        obtain ⟨rfl, -⟩ := List.cons_prefix_cons.mp begins'
        exact absurd (by simp) h

namespace LongestExpression

variable {before behind taken : List Token} {token : Token} {e : Expr}

/-- A token that stands in no tag cuts off what can be taken. -/
theorem append_iff (outside : ¬ token.kind.IsInner) :
    LongestExpression (before ++ token :: behind) taken e ↔ LongestExpression before taken e := by
  -- an expression holds no such token, so it ends before it
  have cut : ∀ {row e'}, Expression (kinds row) e' → row <+: before ++ token :: behind →
      row <+: before := fun derived begins =>
    prefix_of_notMem (fun mem => outside (derived.isInner token mem)) begins
  constructor
  · rintro ⟨begins, derived, longest⟩
    refine ⟨cut derived begins, derived, fun more e' begins' derived' => ?_⟩
    exact longest more e' (begins'.trans (List.prefix_append before _)) derived'
  · rintro ⟨begins, derived, longest⟩
    refine ⟨begins.trans (List.prefix_append before _), derived, ?_⟩
    intro more e' begins' derived'
    exact longest more e' (cut derived' begins') derived'

/-- An expression that a token from outside of tags follows is a longest one. -/
theorem self_append_iff (outside : ¬ token.kind.IsInner) :
    LongestExpression (taken ++ token :: behind) taken e ↔ Expression (kinds taken) e := by
  rw [append_iff outside]
  constructor
  · rintro ⟨-, derived, -⟩
    exact derived
  · intro derived
    exact ⟨List.prefix_rfl, derived, fun more _ begins _ => begins.length_le⟩

end LongestExpression

namespace Reading

/-! ## Compound readings -/

section Compound

variable {α β : Type} {r : Reading α} {s s' : TokenStream}

theorem bind_eq_ok_iff {f : α → Reading β} {b : β} :
    (r >>= f) s = .ok b s' ↔ ∃ a t, r s = .ok a t ∧ f a t = .ok b s' := by
  simp only [Bind.bind, EStateM.bind]
  cases r s <;> simp

/-- Behind a reading that succeeds, the next one goes on. -/
theorem bind_of_eq_ok {f : α → Reading β} {a : α} (h : r s = .ok a s') :
    (r >>= f) s = f a s' := by
  simp only [Bind.bind, EStateM.bind, h]

theorem bind_of_eq_error {report : Report} {f : α → Reading β} (h : r s = .error report s') :
    (r >>= f) s = .error report s' := by
  simp only [Bind.bind, EStateM.bind, h]

/-- A reading can stand for another one that does the same, also if it does so elsewhere. -/
theorem bind_of_eq {t : Reading α} {f : α → Reading β} (h : r s = t s') :
    (r >>= f) s = (t >>= f) s' := by
  simp only [Bind.bind, EStateM.bind, h]

/-- Only what a reading gives matters for how it goes on. -/
theorem bind_congr_of_ok {f g : α → Reading β} (h : ∀ a t, r s = .ok a t → f a t = g a t) :
    (r >>= f) s = (r >>= g) s := by
  cases first : r s with
  | ok a t => rw [bind_of_eq_ok first, bind_of_eq_ok first, h a t first]
  | error report t => rw [bind_of_eq_error first, bind_of_eq_error first]

theorem current_bind (f : Token → Reading β) : (current >>= f) s = f s.current s := rfl

theorem next_bind (f : Token → Reading β) : (next >>= f) s = f s.current s.advance := rfl

theorem map_eq_ok_iff {f : α → β} {b : β} :
    (f <$> r) s = .ok b s' ↔ ∃ a, r s = .ok a s' ∧ f a = b := by
  simp only [Functor.map, EStateM.map]
  cases r s <;> simp [and_comm]

theorem discard_eq_ok_iff {u : Unit} : discard r s = .ok u s' ↔ ∃ a, r s = .ok a s' := by
  have eq : discard r = (fun _ => ()) <$> r := rfl
  simp only [eq, map_eq_ok_iff, and_true]

theorem pure_eq_ok_iff {a b : α} : (pure a : Reading α) s = .ok b s' ↔ a = b ∧ s = s' := by
  simp [pure, EStateM.pure]

theorem current_eq_ok_iff {token : Token} :
    current s = .ok token s' ↔ s.current = token ∧ s = s' := by
  simp [current]

theorem ofExcept_eq_ok_iff {x : Except Cause α} {a : α} :
    ofExcept x s = .ok a s' ↔ x = .ok a ∧ s = s' := by
  cases x <;> simp [ofExcept]

theorem orLine_eq_ok_iff {line : Nat} {a : α} :
    r.orLine line s = .ok a s' ↔ r s = .ok a s' := by
  simp only [orLine]
  cases r s <;> simp

/-! A compound reading that fails has failed in one of its parts. -/

variable {report : Report}

theorem bind_eq_error_iff {f : α → Reading β} :
    (r >>= f) s = .error report s' ↔
      r s = .error report s' ∨ ∃ a t, r s = .ok a t ∧ f a t = .error report s' := by
  simp only [Bind.bind, EStateM.bind]
  cases r s <;> simp

theorem map_eq_error_iff {f : α → β} : (f <$> r) s = .error report s' ↔ r s = .error report s' := by
  simp only [Functor.map, EStateM.map]
  cases r s <;> simp

theorem ofExcept_eq_error_iff {x : Except Cause α} :
    ofExcept x s = .error report s' ↔
      ∃ cause, x = .error cause ∧ report = .unplaced cause ∧ s = s' := by
  cases x <;> simp [ofExcept, eq_comm]

theorem orLine_eq_error_iff {line : Nat} :
    r.orLine line s = .error report s' ↔
      ∃ inner : Report, r s = .error inner s' ∧ report = inner.orLine line := by
  simp only [orLine]
  cases r s <;> simp [eq_comm, and_comm]

end Compound

/-! ## Tokens and expressions -/

section Tokens

variable {s s' : TokenStream}

theorem next_eq_ok_iff {token : Token} (h : s.current.kind ≠ .eof) :
    next s = .ok token s' ↔ s = s'.prepend [token] := by
  rw [TokenStream.prepend_singleton_eq_iff h]
  simp [next]

theorem expect_eq_ok_iff {kind : Token.Kind} (h : kind ≠ .eof) {token : Token} :
    expect kind s = .ok token s' ↔ token.kind = kind ∧ s = s'.prepend [token] := by
  simp only [expect]
  split
  · next same =>
    rw [next_eq_ok_iff (same ▸ h)]
    constructor
    · rintro rfl
      exact ⟨same, rfl⟩
    · rintro ⟨-, eq⟩
      exact eq
  · next other =>
    simp only [wanted, reduceCtorEq, false_iff, not_and]
    rintro rfl rfl
    exact other rfl

theorem expectName_eq_ok_iff {name : String} :
    expectName s = .ok name s' ↔ ∃ line, s = s'.prepend [⟨.name name, line⟩] := by
  simp only [expectName]
  constructor
  · intro h
    split at h
    · next found =>
      cases h
      refine ⟨s.current.line, ?_⟩
      rw [TokenStream.prepend_singleton_eq_iff (by simp [found]), ← found]
      exact ⟨rfl, rfl⟩
    · cases h
  · rintro ⟨line, rfl⟩
    rfl

theorem expectKeyword_eq_ok_iff {name : String} {token : Token} :
    expectKeyword name s = .ok token s' ↔ token.kind = .name name ∧ s = s'.prepend [token] := by
  have same : expectKeyword name s = expect (.name name) s := by
    simp [expectKeyword, expect, Token.isName, Token.Kind.display]
  rw [same, expect_eq_ok_iff (by simp)]

/-- An expression is read if and only if the stream begins with one and with no longer one. -/
theorem expression_eq_ok_iff {e : Expr} :
    expression s = .ok e s' ↔
      ∃ taken, s = s'.prepend taken ∧ LongestExpression s.remaining taken e := by
  simp only [expression]
  constructor
  · intro h
    split at h
    · next _ _ read =>
      cases h
      obtain ⟨taken, longest, rfl⟩ := Expr.read_eq_ok_iff.mp read
      refine ⟨taken, TokenStream.eq_prepend_of_prefix longest.1 ?_, longest⟩
      exact fun token mem => (longest.2.1.isInner token mem).ne_eof
    · cases h
  · rintro ⟨taken, rfl, longest⟩
    simp only [Expr.read_eq_ok_iff.mpr ⟨taken, longest, rfl⟩, TokenStream.drop_prepend]

/-- Before the closer of a tag, no longest expression has to be looked for. -/
theorem expression_closing_iff {form : TagForm} {line : Nat} {e : Expr} :
    expression s = .ok e (s'.prepend [⟨.closing form, line⟩]) ↔
      ∃ row, s = (s'.prepend [⟨.closing form, line⟩]).prepend row ∧
        Expression (kinds row) e := by
  rw [expression_eq_ok_iff]
  refine exists_congr fun row => and_congr_right ?_
  rintro rfl
  simp only [TokenStream.remaining_prepend, List.cons_append, List.nil_append]
  exact LongestExpression.self_append_iff (Token.Kind.not_isInner_closing form)

end Tokens

/-! ## Repetitions -/

theorem collect_eq_ok_iff {α : Type} {stop : Token.Kind} {item later : Item α}
    {s s' : TokenStream} {as : List α} :
    collect stop item later s = .ok as s' ↔
      (s.current.kind = stop ∧ as = [] ∧ s = s') ∨
        s.current.kind ≠ stop ∧ ∃ a more t, item.1 s = .ok a t ∧
          collect stop later later t = .ok more s' ∧ as = a :: more := by
  rw [collect]
  split
  · next h => simp [h, eq_comm]
  · next h =>
    cases first : item.1 s with
    | error => simp [h]
    | ok a t =>
        cases others : collect stop later later t with
        | error => simp [others, h]
        | ok more t' => simp [others, h, and_comm, eq_comm]

end Reading

end SheetMarkup
