import SheetMarkup.Cause
import SheetMarkup.Expr.Reader
import SheetMarkup.Token.Stream

/-!
# Reading from a token stream

A reading takes tokens off a stream and gives a value or a report; either way the stream is left
where the reading ended. Readings only move forward (`Forward`), and a reading of at least one token
leaves fewer of them (`Shortens`), which is why repetitions come to an end.
-/

namespace SheetMarkup

/-- A step of reading a template. -/
abbrev Reading (α : Type) := EStateM Report TokenStream α

namespace TokenStream

/-- The stream is what another one leads to. -/
def IsRestOf (s' s : TokenStream) : Prop := ∃ count, s' = s.drop count

theorem IsRestOf.refl (s : TokenStream) : s.IsRestOf s := ⟨0, rfl⟩

theorem IsRestOf.trans {a b c : TokenStream} : a.IsRestOf b → b.IsRestOf c → a.IsRestOf c := by
  rintro ⟨m, rfl⟩ ⟨n, rfl⟩
  exact ⟨n + m, by simp [drop, List.drop_drop]⟩

theorem IsRestOf.length_le {s' s : TokenStream} (h : s'.IsRestOf s) :
    s'.ahead.length ≤ s.ahead.length := by
  obtain ⟨count, rfl⟩ := h
  simp [drop]

end TokenStream

namespace Reading

/-! ## Single tokens -/

/-- The current token, without moving. -/
def current : Reading Token := fun s => .ok s.current s

/-- Takes the current token. -/
def next : Reading Token := fun s => .ok s.current s.advance

/-- Reports that something else than the current token was wanted. -/
def wanted {α : Type} (what : String) : Reading α := fun s =>
  let cause : Cause :=
    if s.current.kind = .eof then .endOfTemplate else .otherToken s.current.kind what
  .error (.onLine cause s.current.line) s

/-- Takes a token of this kind. -/
def expect (kind : Token.Kind) : Reading Token := fun s =>
  if s.current.kind = kind then next s else wanted kind.display s

/-- Takes any name. -/
def expectName : Reading String := fun s =>
  match s.current.kind with
  | .name name => .ok name s.advance
  | _ => wanted "name" s

/-- Takes this name. -/
def expectKeyword (name : String) : Reading Token := fun s =>
  if s.current.isName name then next s else wanted name s

/-- Takes the longest expression. -/
def expression : Reading Expr := fun s =>
  match Expr.read s.remaining with
  | .ok (e, count) => .ok e (s.drop count)
  | .error refusal =>
    let line := (refusal.found.map Token.line).getD s.endLine
    .error (.onLine (.refusedToken (refusal.found.map Token.kind) refusal.expected) line) s

/-- Adds a line to the reports of a reading that have none. -/
def orLine {α : Type} (line : Nat) (r : Reading α) : Reading α := fun s =>
  match r s with
  | .ok a s' => .ok a s'
  | .error report s' => .error (report.orLine line) s'

/-- Reports a cause that has no place of its own. -/
def ofExcept {α : Type} (x : Except Cause α) : Reading α := fun s =>
  match x with
  | .ok a => .ok a s
  | .error cause => .error (.unplaced cause) s

/-! ## Readings move forward -/

/-- The stream that a reading leaves. -/
def left {α : Type} (r : Reading α) (s : TokenStream) : TokenStream :=
  match r s with
  | .ok _ s' => s'
  | .error _ s' => s'

/-- A reading that moves forward or not at all. -/
def Forward {α : Type} (r : Reading α) : Prop := ∀ s, (left r s).IsRestOf s

/-- A reading that takes a token whenever it succeeds. -/
def Shortens {α : Type} (r : Reading α) : Prop :=
  ∀ s a s', r s = .ok a s' → s'.ahead.length < s.ahead.length

section Forward

variable {α β : Type}

theorem Forward.ok {r : Reading α} (h : Forward r) {s s' : TokenStream} {a : α}
    (hr : r s = .ok a s') : s'.IsRestOf s := by
  simpa [left, hr] using h s

theorem Forward.error {r : Reading α} (h : Forward r) {s s' : TokenStream} {report : Report}
    (hr : r s = .error report s') : s'.IsRestOf s := by
  simpa [left, hr] using h s

theorem Forward.pure (a : α) : Forward (pure a) := fun s => .refl s

theorem Forward.throw (report : Report) : Forward (throw report : Reading α) := fun s => .refl s

theorem Forward.bind {r : Reading α} {f : α → Reading β} (hr : Forward r)
    (hf : ∀ a, Forward (f a)) : Forward (r >>= f) := by
  intro s
  have first := hr s
  simp only [left, Bind.bind, EStateM.bind] at first ⊢
  cases h : r s with
  | ok a s' =>
    simp only [h] at first ⊢
    exact (hf a s').trans first
  | error report s' => simpa only [h] using first

theorem Forward.map {r : Reading α} (hr : Forward r) (f : α → β) : Forward (f <$> r) := by
  intro s
  have first := hr s
  simp only [left, Functor.map, EStateM.map] at first ⊢
  cases h : r s <;> simpa only [h] using first

theorem Forward.ite {p : Prop} [Decidable p] {r t : Reading α} (hr : Forward r)
    (ht : Forward t) : Forward (if p then r else t) := by
  split
  · exact hr
  · exact ht

theorem Forward.current : Forward current := fun s => .refl s

theorem Forward.next : Forward next := fun _ => ⟨1, rfl⟩

theorem Forward.wanted (what : String) : Forward (wanted what : Reading α) := fun s => .refl s

theorem Forward.expect (kind : Token.Kind) : Forward (expect kind) := by
  intro s
  by_cases h : s.current.kind = kind
  · simpa only [left, Reading.expect, h, if_true] using Forward.next s
  · simpa only [left, Reading.expect, h, if_false] using Forward.wanted kind.display s

theorem Forward.expectName : Forward expectName := by
  intro s
  simp only [left, Reading.expectName]
  cases s.current.kind
  case name => exact ⟨1, rfl⟩
  all_goals exact .refl s

theorem Forward.expectKeyword (name : String) : Forward (expectKeyword name) := by
  intro s
  by_cases h : s.current.isName name = true
  · simpa only [left, Reading.expectKeyword, h, if_true] using Forward.next s
  · simpa only [left, Reading.expectKeyword, h, if_false, Bool.false_eq_true] using
      Forward.wanted name s

theorem Forward.expression : Forward expression := by
  intro s
  simp only [left, Reading.expression]
  split
  · next h =>
    split at h
    · cases h; exact ⟨_, rfl⟩
    · cases h
  · next h =>
    split at h
    · cases h
    · cases h; exact .refl s

theorem Forward.orLine {r : Reading α} (hr : Forward r) (line : Nat) : Forward (r.orLine line) := by
  intro s
  have first := hr s
  simp only [left, Reading.orLine] at first ⊢
  cases h : r s <;> simpa only [h] using first

theorem Forward.ofExcept (x : Except Cause α) : Forward (ofExcept x) := by
  intro s
  cases x <;> exact .refl s

/-- Taking the current token, if it is not the end, and going on leaves fewer tokens. -/
theorem length_lt_of_next_bind {f : Token → Reading β} (hf : ∀ token, Forward (f token))
    {s s' : TokenStream} {b : β} (current : s.current.kind ≠ .eof)
    (h : (next >>= f) s = .ok b s') : s'.ahead.length < s.ahead.length :=
  Nat.lt_of_le_of_lt ((hf s.current).ok (s := s.advance) h).length_le
    (TokenStream.length_ahead_drop_lt current Nat.one_pos)

theorem Shortens.expression : Shortens expression := by
  intro s e s' h
  simp only [Reading.expression] at h
  split at h
  · next e count hread =>
    cases h
    refine TokenStream.length_ahead_drop_lt ?_ (Expr.read_pos hread)
    obtain ⟨ahead, endLine⟩ := s
    cases ahead <;> exact Expr.kind_ne_eof_of_read hread
  · cases h

theorem Shortens.expectName : Shortens expectName := by
  intro s name s' h
  simp only [Reading.expectName] at h
  split at h
  · next hk =>
    cases h
    exact TokenStream.length_ahead_drop_lt (by simp [hk]) Nat.one_pos
  · cases h

theorem Shortens.bind_right {r : Reading α} {f : α → Reading β} (hr : Forward r)
    (hf : ∀ a, Shortens (f a)) : Shortens (r >>= f) := by
  intro s b s' h
  simp only [Bind.bind, EStateM.bind] at h
  split at h
  · next a t hrt => exact Nat.lt_of_lt_of_le (hf a t b s' h) (hr.ok hrt).length_le
  · cases h

end Forward

/-! ## Repetition -/

section Collect

variable {α : Type}

/-- A reading of at least one token. -/
abbrev Item (α : Type) := { r : Reading α // Shortens r }

/-- Reads items up to a token of the kind `stop`, which is not taken: the first by `item`, the
others by `later`. -/
def collect (stop : Token.Kind) (item later : Item α) (s : TokenStream) :
    EStateM.Result Report TokenStream (List α) :=
  if s.current.kind = stop then .ok [] s
  else
    match _item : item.1 s with
    | .error report s' => .error report s'
    | .ok a s' =>
      match collect stop later later s' with
      | .error report s'' => .error report s''
      | .ok as s'' => .ok (a :: as) s''
termination_by s.ahead.length
decreasing_by exact item.2 s a s' _item

theorem Forward.collect {stop : Token.Kind} {item later : Item α} (hi : Forward item.1)
    (hl : Forward later.1) : Forward (collect stop item later) := by
  intro s
  unfold left
  fun_induction Reading.collect stop item later s with
  | case1 => exact .refl _
  | case2 _ s _ report s' h => exact hi.error h
  | case3 _ s _ a s' h report s'' h' ih =>
    simp only [h'] at ih
    exact (ih hl).trans (hi.ok h)
  | case4 _ s _ a s' h as s'' h' ih =>
    simp only [h'] at ih
    exact (ih hl).trans (hi.ok h)

end Collect

end Reading

end SheetMarkup
