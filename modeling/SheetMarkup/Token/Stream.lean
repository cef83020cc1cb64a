import SheetMarkup.Token.Basic

/-!
# Token streams

A stream is what is still to be read of a template: some tokens, then the end. The end cannot be
passed, so there is always a current token (`remaining_ne_nil`).
-/

namespace SheetMarkup

/-- The tokens ahead and the line of the end that follows them. -/
structure TokenStream where
  ahead : List Token
  endLine : Nat
deriving DecidableEq, Repr

namespace TokenStream

/-- The end of the template as a token. -/
def eof (s : TokenStream) : Token := ⟨.eof, s.endLine⟩

/-- The stream of a token list. A list that lacks its end gets one, on the line of its last token or
on line 1. -/
def ofList (tokens : List Token) : TokenStream :=
  match tokens.getLast? with
  | none => ⟨[], 1⟩
  | some last => if last.kind = .eof then ⟨tokens.dropLast, last.line⟩ else ⟨tokens, last.line⟩

/-- The tokens from the current one to the end, both included. -/
def remaining (s : TokenStream) : List Token := s.ahead ++ [s.eof]

/-- The token that is read next. -/
def current (s : TokenStream) : Token := s.ahead.headD s.eof

/-- What is left behind the next tokens counted. The end stays. -/
def drop (s : TokenStream) (count : Nat) : TokenStream := { s with ahead := s.ahead.drop count }

/-- Moves past the current token, but not past the end. -/
def advance (s : TokenStream) : TokenStream := s.drop 1

theorem remaining_ne_nil (s : TokenStream) : s.remaining ≠ [] := by simp [remaining]

theorem head?_remaining (s : TokenStream) : s.remaining.head? = some s.current := by
  obtain ⟨ahead, _⟩ := s
  cases ahead <;> rfl

/-- A current token other than the end is one of those ahead. -/
theorem ahead_ne_nil {s : TokenStream} (h : s.current.kind ≠ .eof) : s.ahead ≠ [] := by
  intro nil
  exact h (by simp [current, nil, eof])

/-- Moving on from a token other than the end leaves fewer tokens. -/
theorem length_ahead_drop_lt {s : TokenStream} (h : s.current.kind ≠ .eof) {count : Nat}
    (pos : 0 < count) : (s.drop count).ahead.length < s.ahead.length := by
  have := List.length_pos_iff.mpr (ahead_ne_nil h)
  simp only [drop, List.length_drop]
  omega

end TokenStream

end SheetMarkup
