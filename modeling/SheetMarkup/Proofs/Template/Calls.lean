import SheetMarkup.Proofs.Template.Termination
import SheetMarkup.Template.Cursor

/-!
# Calls on a token stream

All parsers share one cursor, and they go on with it wherever the last one has left it, in success
or in failure. Its tokens are stored for good. The stream that a reading gets stands at an index
among them (`TokenStream.StandsAt`): what remains begins with the token there.

`Call.Moves` tells what comes of a call and how far the index goes. Every call on a cursor that
stands at a token does as told (`Cursor.exists_leadsTo`), and so does every call behind any others
(`calls_move_index`). The index goes back only where a number of tokens to skip is so large that its
sum with the index is no machine word (`calls_move_index_back`).
-/

namespace SheetMarkup

open Reading

namespace TokenStream

theorem remaining_ofList (tokens : List Token) :
    (ofList tokens).remaining = Token.closed tokens := by
  unfold ofList Token.closed
  cases last : tokens.getLast? with
  | none => rfl
  | some token =>
      dsimp only
      split
      · next ends =>
        obtain ⟨init, rfl⟩ := List.getLast?_eq_some_iff.mp last
        simp [remaining, eof, ← ends]
      · rfl

/-! ## Indices -/

/-- A stream at an index among the tokens that it was made of. -/
structure StandsAt (s : TokenStream) (stored : List Token) (index : Nat) : Prop where
  inRange : index < stored.length
  remaining_eq : s.remaining = stored.drop index

namespace StandsAt

variable {s s' : TokenStream} {stored : List Token} {index : Nat}

/-- Behind the index stand the tokens ahead and the end. -/
theorem length_eq (h : s.StandsAt stored index) : stored.length = index + s.ahead.length + 1 := by
  have := h.inRange
  have length := congrArg List.length h.remaining_eq
  simp only [remaining, List.length_append, List.length_singleton, List.length_drop] at length
  omega

theorem getElem?_eq (h : s.StandsAt stored index) : stored[index]? = some s.current := by
  rw [← s.head?_remaining, h.remaining_eq, List.head?_drop]

/-- The last token stops a move. -/
theorem drop (h : s.StandsAt stored index) (count : Nat) :
    (s.drop count).StandsAt stored (min (index + count) (stored.length - 1)) := by
  have length := h.length_eq
  refine ⟨by omega, ?_⟩
  have rest : (s.drop count).remaining = s.remaining.drop (min count s.ahead.length) := by
    simp only [remaining, TokenStream.drop, eof]
    rw [List.drop_append_of_le_length (Nat.min_le_right _ _)]
    rcases Nat.le_total count s.ahead.length with le | le
    · rw [Nat.min_eq_left le]
    · rw [Nat.min_eq_right le, List.drop_of_length_le le, List.drop_length]
  rw [rest, h.remaining_eq, List.drop_drop]
  congr 1
  omega

theorem of_isRestOf (h : s.StandsAt stored index) (rest : s'.IsRestOf s) :
    ∃ index', index ≤ index' ∧ s'.StandsAt stored index' := by
  obtain ⟨count, rfl⟩ := rest
  have := h.inRange
  exact ⟨_, by omega, h.drop count⟩

/-- Behind a token other than the end there is another one. -/
theorem succ_lt (h : s.StandsAt stored index) (current : s.current.kind ≠ .eof) :
    index + 1 < stored.length := by
  have := List.length_pos_iff.mpr (ahead_ne_nil current)
  have := h.length_eq
  omega

end StandsAt

end TokenStream

/-! ## Readings that fail where they stand -/

namespace Reading

/-- What a reading does with a stream that it takes some tokens of or, if it fails, none. -/
def TakesOrStays {α : Type} (r : Reading α) (s : TokenStream) (Given : α → Nat → Prop) : Prop :=
  (∃ a count, r s = .ok a (s.drop count) ∧ Given a count) ∨ ∃ report, r s = .error report s

variable (s : TokenStream)

theorem expect_takesOrStays (kind : Token.Kind) :
    TakesOrStays (expect kind) s fun token count =>
      token = s.current ∧ token.kind = kind ∧ count = 1 := by
  by_cases same : s.current.kind = kind
  · exact .inl ⟨s.current, 1, if_pos same, rfl, same, rfl⟩
  · exact .inr ⟨_, if_neg same⟩

theorem expectName_takesOrStays :
    TakesOrStays expectName s fun name count => s.current.kind = .name name ∧ count = 1 := by
  cases kind : s.current.kind with
  | name name => exact .inl ⟨name, 1, by simp only [expectName, kind]; rfl, rfl, rfl⟩
  | _ => exact .inr ⟨_, by simp only [expectName, kind]; rfl⟩

theorem expectKeyword_takesOrStays (name : String) :
    TakesOrStays (expectKeyword name) s fun token count =>
      token = s.current ∧ token.kind = .name name ∧ count = 1 := by
  by_cases same : s.current.isName name = true
  · exact .inl ⟨s.current, 1, if_pos same, rfl, by simpa [Token.isName] using same, rfl⟩
  · exact .inr ⟨_, if_neg same⟩

theorem expression_takesOrStays :
    TakesOrStays expression s fun e count => Expr.read s.remaining = .ok (e, count) := by
  cases read : Expr.read s.remaining with
  | ok result => exact .inl ⟨result.1, result.2, by simp only [expression, read], rfl⟩
  | error refusal => exact .inr ⟨_, by simp only [expression, read]; rfl⟩

end Reading

/-- An expression ends before the end of the template. -/
theorem Expr.take_of_read {s : TokenStream} {e : Expr} {count : Nat}
    (h : Expr.read s.remaining = .ok (e, count)) :
    (∀ token ∈ s.remaining.take count, token.kind ≠ .eof) ∧ count ≤ s.ahead.length := by
  obtain ⟨taken, longest, rfl⟩ := Expr.read_eq_ok_iff.mp h
  have inner : ∀ token ∈ taken, token.kind ≠ .eof :=
    fun token mem => (longest.2.1.isInner token mem).ne_eof
  have front := TokenStream.eq_prepend_of_prefix longest.1 inner
  refine ⟨?_, ?_⟩
  · rwa [← List.prefix_iff_eq_take.mp longest.1]
  · have length := congrArg (fun s => s.ahead.length) front
    simp only [TokenStream.prepend, List.length_append] at length
    omega

/-- The reading of a body moves forward, as the descent does. -/
theorem Dialect.forward_readBody (dialect : Dialect) (bound : Bound) :
    Forward (dialect.readBody bound) := by
  intro s
  have read :=
    Descent.follows_readBody (.unplaced .namelessTag) dialect (s.ahead.length + 1) bound s
  have forward := read.forward
  rwa [left, read.agree (Nat.lt_succ_self _)] at forward

/-! ## Cursors -/

namespace Cursor

/-- A cursor at one of its tokens, the last of which is the end. -/
structure Closed (c : Cursor) : Prop where
  inRange : c.index < c.tokens.length
  ends : ∃ line, c.tokens.getLast? = some ⟨.eof, line⟩

theorem closed_ofList (tokens : List Token) : (ofList tokens).Closed := by
  have stored : (ofList tokens).tokens = (TokenStream.ofList tokens).remaining :=
    (TokenStream.remaining_ofList tokens).symm
  refine ⟨?_, ?_⟩
  · rw [stored]
    exact List.length_pos_iff.mpr (TokenStream.remaining_ne_nil _)
  · rw [stored]
    exact ⟨_, List.getLast?_concat⟩

variable {c : Cursor}

/-- Another index in range leaves a cursor at one of its tokens. -/
theorem Closed.at (closed : c.Closed) {index : Nat} (inRange : index < c.tokens.length) :
    Closed { c with index := index } :=
  ⟨inRange, closed.ends⟩

/-- What is read from a cursor is the rest of its tokens: they have an end already. -/
theorem Closed.standsAt (closed : c.Closed) : c.stream.StandsAt c.tokens c.index := by
  obtain ⟨inRange, line, ends⟩ := closed
  have last : (c.tokens.drop c.index).getLast? = some ⟨.eof, line⟩ := by
    rw [List.getLast?_drop, if_neg (Nat.not_le_of_lt inRange), ends]
  refine ⟨inRange, ?_⟩
  simp only [stream, TokenStream.remaining_ofList, remaining, Token.closed, last, if_true]

/-- A cursor moves to the index at which a stream stands. -/
theorem moveTo_eq {s : TokenStream} {index : Nat} (stands : s.StandsAt c.tokens index) :
    c.moveTo s = { c with index := index } := by
  have inRange := stands.inRange
  have back : c.tokens.length - (c.tokens.length - index) = index := by omega
  rw [moveTo, stands.remaining_eq, List.length_drop, back]

section Perform

variable {α : Type} {r : Reading α}

/-- A reading that takes some tokens moves the index past them, but not past the last token. -/
theorem perform_eq_ok (closed : c.Closed) {a : α} {count : Nat}
    (read : r c.stream = .ok a (c.stream.drop count)) :
    perform r c = .ok a { c with index := min (c.index + count) (c.tokens.length - 1) } := by
  simp only [perform, read, moveTo_eq (closed.standsAt.drop count)]

/-- A reading that is refused where it begins leaves the cursor as it is. -/
theorem perform_eq_error (closed : c.Closed) {report : Report}
    (failed : r c.stream = .error report c.stream) : perform r c = .error report c := by
  simp only [perform, failed, moveTo_eq closed.standsAt]

end Perform

/-- The sum of index and count in machine words. -/
theorem toNat_wordSum (index : Nat) (count : UInt64) :
    (UInt64.ofNat index + count).toNat = (index + count.toNat) % UInt64.size := by
  simp [UInt64.toNat_add, UInt64.size]

end Cursor

/-! ## Calls -/

namespace Call

/-- What comes of a call. The calls for a token that may be the end are stopped by the last token,
and so is skipping, in which the sum of index and count is taken in machine words. -/
def Moves (c : Cursor) : (call : Call) → EStateM.Result Report Cursor call.Value → Prop
  | next, .ok token c' =>
    c.tokens[c.index]? = some token ∧ c'.index = min (c.index + 1) (c.tokens.length - 1)
  | skip count, .ok _ c' =>
    c'.index = min ((c.index + count.toNat) % UInt64.size) (c.tokens.length - 1)
  | expect kind, .ok token c' =>
    c.tokens[c.index]? = some token ∧ token.kind = kind ∧
      c'.index = min (c.index + 1) (c.tokens.length - 1)
  | expectName, .ok name c' =>
    (∃ line, c.tokens[c.index]? = some ⟨.name name, line⟩) ∧ c'.index = c.index + 1
  | expectKeyword name, .ok token c' =>
    c.tokens[c.index]? = some token ∧ token.kind = .name name ∧ c'.index = c.index + 1
  | expression, .ok e c' =>
    ∃ count, Expr.read c.remaining = .ok (e, count) ∧
      (∀ token ∈ c.remaining.take count, token.kind ≠ .eof) ∧
        c'.index = c.index + count ∧ c.index + count < c.tokens.length
  | next, .error _ _ | skip _, .error _ _ => False
  | expect _, .error _ c' | expectName, .error _ c' | expectKeyword _, .error _ c'
  | expression, .error _ c' => c'.index = c.index
  | body _, .ok _ c' | body _, .error _ c' => c.index ≤ c'.index

/-- A call that adds nothing to the index, or no more than gives a machine word. -/
def Fits (c : Cursor) : Call → Prop
  | skip count => c.index + count.toNat < UInt64.size
  | _ => True

end Call

namespace Cursor

variable (dialect : Dialect)

/-- The cursor behind a call, whatever has come of it. -/
def behind (c : Cursor) (call : Call) : Cursor :=
  match call.run dialect c with
  | .ok _ c' => c'
  | .error _ c' => c'

/-- The cursor behind some calls. -/
def after (c : Cursor) (calls : List Call) : Cursor := calls.foldl (behind dialect) c

/-- Each of some calls fits where the cursor stands by then. -/
def AllFit : Cursor → List Call → Prop
  | _, [] => True
  | c, call :: calls => call.Fits c ∧ AllFit (c.behind dialect call) calls

variable {c : Cursor}

/-- What is known of a call: it leaves all tokens and leads to one of them, not back if it fits, and
it does as told. -/
structure LeadsTo (c : Cursor) (call : Call) (index : Nat) : Prop where
  behind_eq : c.behind dialect call = { c with index := index }
  inRange : index < c.tokens.length
  forward : call.Fits c → c.index ≤ index
  moves : call.Moves c (call.run dialect c)

section LeadsTo

variable {dialect} {call : Call} {index : Nat}

theorem LeadsTo.of_ok {a : call.Value} (run : call.run dialect c = .ok a { c with index := index })
    (inRange : index < c.tokens.length) (forward : call.Fits c → c.index ≤ index)
    (moves : call.Moves c (.ok a { c with index := index })) : c.LeadsTo dialect call index :=
  ⟨by rw [behind, run], inRange, forward, by rwa [run]⟩

theorem LeadsTo.of_error {report : Report}
    (run : call.run dialect c = .error report { c with index := index })
    (inRange : index < c.tokens.length) (forward : call.Fits c → c.index ≤ index)
    (moves : call.Moves c (.error report { c with index := index })) :
    c.LeadsTo dialect call index :=
  ⟨by rw [behind, run], inRange, forward, by rwa [run]⟩

/-- A call that takes some tokens or, if it is refused, none leads past the tokens it takes, or
nowhere. -/
theorem exists_leadsTo_of_takesOrStays (closed : c.Closed) {r : Reading call.Value}
    {Given : call.Value → Nat → Prop} (runs : call.run dialect c = perform r c)
    (read : TakesOrStays r c.stream Given)
    (taken : ∀ a count, Given a count →
      call.Moves c (.ok a { c with index := min (c.index + count) (c.tokens.length - 1) }))
    (refused : ∀ report, call.Moves c (.error report c)) :
    ∃ index, c.LeadsTo dialect call index := by
  have inRange := closed.inRange
  rcases read with ⟨a, count, read, given⟩ | ⟨report, failed⟩
  · exact ⟨_, .of_ok (runs.trans (perform_eq_ok closed read)) (by omega) (fun _ => by omega)
      (taken a count given)⟩
  · exact ⟨c.index, .of_error (runs.trans (perform_eq_error closed failed)) inRange
      (fun _ => Nat.le_refl _) (refused report)⟩

end LeadsTo

/-! ### Every call does as told -/

/-- Skipping leads to the sum of index and count in machine words, but not past the last token. -/
theorem leadsTo_skip (closed : c.Closed) (count : UInt64) :
    c.LeadsTo dialect (.skip count)
      (min ((c.index + count.toNat) % UInt64.size) (c.tokens.length - 1)) := by
  have inRange := closed.inRange
  have run : (Call.skip count).run dialect c = Cursor.skip count c := rfl
  rw [Cursor.skip, toNat_wordSum] at run
  refine .of_ok run (by omega) (fun fits => ?_) rfl
  have fits : c.index + count.toNat < UInt64.size := fits
  rw [Nat.mod_eq_of_lt fits]
  omega

/-- The reading of a body leads forward. -/
theorem exists_leadsTo_body (closed : c.Closed) (bound : Bound) :
    ∃ index, c.LeadsTo dialect (.body bound) index := by
  obtain ⟨index, le, ends⟩ :=
    closed.standsAt.of_isRestOf (dialect.forward_readBody bound c.stream)
  have run : (Call.body bound).run dialect c = perform (dialect.readBody bound) c := rfl
  cases read : dialect.readBody bound c.stream with
  | ok node s =>
      rw [left, read] at ends
      simp only [perform, read, moveTo_eq ends] at run
      exact ⟨index, .of_ok run ends.inRange (fun _ => le) le⟩
  | error report s =>
      rw [left, read] at ends
      simp only [perform, read, moveTo_eq ends] at run
      exact ⟨index, .of_error run ends.inRange (fun _ => le) le⟩

/-- A call on a cursor that stands at a token leaves all tokens, and leads to one of them. -/
theorem exists_leadsTo (closed : c.Closed) (call : Call) :
    ∃ index, c.LeadsTo dialect call index := by
  have stands := closed.standsAt
  have current := stands.getElem?_eq
  have inRange := closed.inRange
  cases call with
  | next =>
      have read : Reading.next c.stream = .ok c.stream.current (c.stream.drop 1) := rfl
      have run : Call.next.run dialect c = _ := perform_eq_ok closed read
      exact ⟨_, .of_ok run (by omega) (fun _ => by omega) ⟨current, rfl⟩⟩
  | skip count => exact ⟨_, leadsTo_skip dialect closed count⟩
  | expect kind =>
      refine exists_leadsTo_of_takesOrStays closed rfl (expect_takesOrStays _ kind) ?_ fun _ => rfl
      rintro _ _ ⟨rfl, same, rfl⟩
      exact ⟨current, same, rfl⟩
  | expectName =>
      refine exists_leadsTo_of_takesOrStays closed rfl (expectName_takesOrStays _) ?_ fun _ => rfl
      rintro name _ ⟨found, rfl⟩
      -- a name is not the end, so the last token does not stop the move
      have further := stands.succ_lt (by simp [found])
      exact ⟨⟨c.stream.current.line, by rw [current, ← found]⟩, Nat.min_eq_left (by omega)⟩
  | expectKeyword name =>
      refine exists_leadsTo_of_takesOrStays closed rfl (expectKeyword_takesOrStays _ name) ?_
        fun _ => rfl
      rintro _ _ ⟨rfl, found, rfl⟩
      have further := stands.succ_lt (by simp [found])
      exact ⟨current, found, Nat.min_eq_left (by omega)⟩
  | expression =>
      refine exists_leadsTo_of_takesOrStays closed rfl (expression_takesOrStays _) ?_ fun _ => rfl
      intro e count read
      obtain ⟨noEnd, le⟩ := Expr.take_of_read read
      have length := stands.length_eq
      rw [stands.remaining_eq] at read noEnd
      exact ⟨count, read, noEnd, Nat.min_eq_left (by omega), by omega⟩
  | body bound => exact exists_leadsTo_body dialect closed bound

/-- Calls one after another leave all tokens, and lead to one of them. They never lead back if each
of them fits. -/
theorem exists_after (closed : c.Closed) (calls : List Call) :
    ∃ index, c.after dialect calls = { c with index := index } ∧ index < c.tokens.length ∧
      (c.AllFit dialect calls → c.index ≤ index) := by
  induction calls generalizing c with
  | nil => exact ⟨c.index, rfl, closed.inRange, fun _ => Nat.le_refl _⟩
  | cons call calls ih =>
      obtain ⟨middle, leads⟩ := exists_leadsTo dialect closed call
      obtain ⟨index, last, inRange, le⟩ := ih (closed.at leads.inRange)
      refine ⟨index, ?_, inRange, fun fit => ?_⟩
      · rw [after, List.foldl_cons, leads.behind_eq]
        exact last
      · obtain ⟨fits, later⟩ := fit
        rw [leads.behind_eq] at later
        exact Nat.le_trans (leads.forward fits) (le later)

end Cursor

/-- Whatever is called on a cursor over a token list, and whether it succeeds or fails, the tokens
that are stored stay what they are, and the last of them is the end. The cursor always stands at one
of them, every call moves it as far as `Call.Moves` tells, and it never goes back as long as no sum
of the index and a number of tokens to skip exceeds a machine word. -/
theorem calls_move_index (dialect : Dialect) (tokens : List Token) :
    let start := Cursor.ofList tokens
    start.tokens = Token.closed tokens ∧ start.index = 0 ∧
      (∃ line, start.tokens.getLast? = some ⟨.eof, line⟩) ∧
      ∀ calls : List Call,
        let c := start.after dialect calls
        c.tokens = start.tokens ∧ c.index < c.tokens.length ∧
          c.remaining <:+ c.tokens ∧ c.remaining ≠ [] ∧
          (∀ more, c.AllFit dialect more → c.index ≤ (c.after dialect more).index) ∧
          ∀ call : Call, call.Moves c (call.run dialect c) := by
  intro start
  have closed : start.Closed := Cursor.closed_ofList tokens
  refine ⟨rfl, rfl, closed.ends, fun calls => ?_⟩
  intro c
  obtain ⟨index, eq, inRange, -⟩ := start.exists_after dialect closed calls
  have c_eq : c = { start with index := index } := eq
  have here : c.Closed := c_eq ▸ closed.at inRange
  refine ⟨by rw [c_eq], here.inRange, List.drop_suffix _ _, ?_, ?_, ?_⟩
  · exact fun none => absurd here.inRange (Nat.not_lt_of_le (List.drop_eq_nil_iff.mp none))
  · intro more fit
    obtain ⟨_, moved, -, le⟩ := c.exists_after dialect here more
    rw [moved]
    exact le fit
  · intro call
    obtain ⟨_, leads⟩ := c.exists_leadsTo dialect here call
    exact leads.moves

/-- Skipping the greatest number of tokens leads back to the first of two tokens, of which the
second is the current one. -/
theorem calls_move_index_back :
    let start := Cursor.ofList [⟨.name "a", 1⟩]
    let greatest := UInt64.ofNat (UInt64.size - 1)
    let before := start.after .host [.next]
    let behind := before.after .host [.skip greatest]
    before.index = 1 ∧ behind.index = 0 ∧ ¬ before.index ≤ behind.index := by
  decide

end SheetMarkup
