import SheetMarkup.Proofs.Template.Reports

/-!
# Reading by recursive descent

A template can be read without a stack: the reading of a body goes from construct to construct, and
where a tag has a body it reads that in the same way (`Descent.body`). This need not end by itself,
so the reading is given fuel. Every round of a loop takes some, a body within a tag gets what is
left, and once the fuel is spent that is reported.

A round that goes on takes a token at least (`Descent.length_lt_of_round`), and what a round comes
to depends on the bodies of tags only where fewer tokens remain (`Descent.follows_round`). The
second is found for each part of a round from its own parts: a part moves forward, reports what may
be reported, and does the same if bodies are read alike (`Descent.Follows`).
-/

namespace SheetMarkup

open Reading

namespace Descent

/-! ## The descent -/

/-- Reads items up to a token of the kind `stop`, which is not taken: the first by `item`, the
others by `later`. -/
def items {α : Type} (spent : Report) (stop : Token.Kind) :
    Nat → Reading α → Reading α → Reading (List α)
  | 0, _, _ => throw spent
  | fuel + 1, item, later => do
    let token ← current
    if token.kind = stop then
      return []
    else
      let first ← item
      let others ← items spent stop fuel later later
      return first :: others

section Tags

variable (spent : Report) (fuel : Nat) (inner : Bound → Reading Node) (line : Nat)

/-- Reads an output tag, from behind its opener on. -/
def output : Reading Node := do
  let value ← expression
  let _ ← expect (.closing .output)
  return .print line value

/-- Reads a condition, from behind its name on. Bodies are read by `inner`. -/
def choice : Reading Node := do
  let condition ← expression
  endBlock
  let first ← inner (.atTag ["else", "endif"] false)
  let token ← current
  if token.isName "else" then
    let _ ← next
    endBlock
    let second ← inner (.atTag ["endif"] false)
    let _ ← expectKeyword "endif"
    endBlock
    return .choice line condition first (some second)
  else
    let _ ← expectKeyword "endif"
    endBlock
    return .choice line condition first none

/-- Reads a loop, from behind its name on. -/
def loop : Reading Node := do
  let binding ← expectName
  let _ ← expectKeyword "in"
  let iterable ← expression
  endBlock
  let body ← inner (.atTag ["endfor"] true)
  endBlock
  return .loop line binding iterable body

/-- Reads a macro, from behind its name on. -/
def definition : Reading Node := do
  let name ← expectName
  let _ ← expect (.symbol .openParen)
  let arguments ← items spent (.symbol .closeParen) fuel nameItem.1 laterNameItem.1
  let _ ← expect (.symbol .closeParen)
  endBlock
  let body ← inner (.atTag ["endmacro"] true)
  endBlock
  return .definition line name arguments body

/-- Reads the parameters in the tag of a directive whose name is this token, and the closer of the
tag. -/
def parameters (directive : Directive) (name : Token) : Reading (OrderedMap Expr) := do
  let schema ← ofExcept (Schema.ofList (directive.parameters name))
  let expressions ← items spent (.closing .block) fuel expression expression
  endBlock
  ofExcept (schema.bind expressions)

/-- Reads a directive, from behind its name on, which is this token. -/
def directive (d : Directive) (name : Token) : Reading Node := do
  let parameters ← parameters spent fuel d name
  if d.hasBody then
    let body ← inner (.atTag [d.endTag] true)
    endBlock
    return d.node name.line parameters (some body)
  else
    return d.node name.line parameters none

/-- Reads a block tag with all that belongs to it, from behind its name on. -/
def tag (dialect : Dialect) (name : String) : Reading Node :=
  if name = "if" then choice inner line
  else if name = "for" then loop inner line
  else if name = "macro" then definition spent fuel inner line
  else
    match dialect.find? name with
    | some d => (directive spent fuel inner d ⟨.name name, line⟩).orLine line
    | none => throw (.onLine (Draft.foreignTag name) line)

variable (dialect : Dialect) (bound : Bound) (body : Body)

/-- Reads a block tag, from behind its opener on; it may be the one that the body ends at. -/
def block : Reading (Body ⊕ Node) := do
  let token ← current
  match token.kind with
  | .name name =>
    if bound.stopsAt token then
      if bound.takesName then (fun _ => .inr body.node) <$> next
      else return .inr body.node
    else
      let _ ← next
      (fun node => .inl (body.push node)) <$> tag spent fuel inner token.line dialect name
  | _ => throw (.onLine .namelessTag token.line)

/-- One round of the loop over the constructs of a body. The result is a longer body, or its node if
it ends here. -/
def round : Reading (Body ⊕ Node) := fun s =>
  match s.current.kind with
  | .text value => (next >>= fun token => return .inl (body.push (.text token.line value))) s
  | .opening .output =>
    (next >>= fun token => (fun node => .inl (body.push node)) <$> output token.line) s
  | .opening .block => (next >>= fun _ => block spent fuel inner dialect bound body) s
  | .eof =>
    if bound = .atEnd then .ok (.inr body.node) s
    else .error (.onLine .endOfTemplate s.current.line) s
  | found => .error (.onLine (.strayToken found) s.current.line) s

end Tags

/-- Reads the rest of a body. -/
def body (spent : Report) (dialect : Dialect) : Nat → Bound → Body → Reading Node
  | 0, _, _ => throw spent
  | fuel + 1, bound, start => do
    let inner (bound : Bound) : Reading Node := do
      let token ← current
      body spent dialect fuel bound ⟨token.line, []⟩
    match ← round spent fuel inner dialect bound start with
    | .inl longer => body spent dialect fuel bound longer
    | .inr node => return node

/-- Reads a body. -/
def wholeBody (spent : Report) (dialect : Dialect) (fuel : Nat) (bound : Bound) : Reading Node := do
  let token ← current
  body spent dialect fuel bound ⟨token.line, []⟩

theorem body_succ (spent : Report) (dialect : Dialect) (fuel : Nat) (bound : Bound) (start : Body) :
    body spent dialect (fuel + 1) bound start =
      round spent fuel (wholeBody spent dialect fuel) dialect bound start >>= fun
        | .inl longer => body spent dialect fuel bound longer
        | .inr node => return node := rfl

/-! ## Readings that follow each other -/

/-- A reading moves forward from a stream and reports there what may be reported; if fewer than `n`
tokens remain, it does what another reading does. -/
structure FollowsAt {α : Type} (n : Nat) (Q : Report → Prop) (r r' : Reading α)
    (s : TokenStream) : Prop where
  forward : (left r s).IsRestOf s
  reports : ∀ report s', r s = .error report s' → Q report
  agree : s.ahead.length < n → r s = r' s

/-- Only what the readings do there matters. -/
theorem FollowsAt.of_eq {α : Type} {n : Nat} {Q : Report → Prop} {r r' t t' : Reading α}
    {s : TokenStream} (h : FollowsAt n Q t t' s) (eq : r s = t s) (eq' : r' s = t' s) :
    FollowsAt n Q r r' s where
  forward := by simpa only [left, eq] using h.forward
  reports := by simpa only [eq] using h.reports
  agree := by simpa only [eq, eq'] using h.agree

/-- The same from every stream. -/
def Follows {α : Type} (n : Nat) (Q : Report → Prop) (r r' : Reading α) : Prop :=
  ∀ s, FollowsAt n Q r r' s

namespace Follows

variable {α β : Type} {n : Nat} {Q : Report → Prop} {r r' : Reading α}

theorem forward (h : Follows n Q r r') : Forward r := fun s => (h s).forward

theorem reports (h : Follows n Q r r') : Reports (fun _ => True) Q r :=
  fun s report s' _ failed => (h s).reports report s' failed

/-- A reading follows itself. -/
theorem self (forward : Forward r) (reports : Reports (fun _ => True) Q r) : Follows n Q r r :=
  fun s => ⟨forward s, fun report s' => reports s report s' fun _ _ => trivial, fun _ => rfl⟩

theorem pure (a : α) : Follows n Q (Pure.pure a : Reading α) (Pure.pure a) :=
  .self (.pure a) (.pure a)

theorem bind {f f' : α → Reading β} (h : Follows n Q r r') (hf : ∀ a, Follows n Q (f a) (f' a)) :
    Follows n Q (r >>= f) (r' >>= f') := by
  have forward : Forward (r >>= f) := h.forward.bind fun a => (hf a).forward
  have reports : Reports (fun _ => True) Q (r >>= f) :=
    .bind h.forward h.reports fun a => (hf a).reports
  intro s
  refine ⟨forward s, fun report s' => reports s report s' fun _ _ => trivial, ?_⟩
  intro few
  rw [← bind_of_eq ((h s).agree few)]
  refine bind_congr_of_ok fun a t first => ?_
  exact (hf a t).agree (Nat.lt_of_le_of_lt (h.forward.ok first).length_le few)

theorem map (h : Follows n Q r r') (f : α → β) : Follows n Q (f <$> r) (f <$> r') := by
  rw [← bind_pure_comp, ← bind_pure_comp]
  exact h.bind fun _ => .pure _

theorem ite {p : Prop} [Decidable p] {t t' : Reading α} (h : Follows n Q r r')
    (ht : Follows n Q t t') : Follows n Q (if p then r else t) (if p then r' else t') := by
  split
  · exact h
  · exact ht

theorem orLine (h : Follows n Q r r') (known : ∀ report line, Q report → Q (report.orLine line))
    (line : Nat) : Follows n Q (r.orLine line) (r'.orLine line) := by
  intro s
  refine ⟨h.forward.orLine line s, ?_, ?_⟩
  · intro report s' failed
    obtain ⟨inner, raised, rfl⟩ := orLine_eq_error_iff.mp failed
    exact known inner line ((h s).reports inner s' raised)
  · intro few
    simp only [Reading.orLine, (h s).agree few]

theorem mono {m : Nat} (h : Follows n Q r r') (le : m ≤ n) : Follows m Q r r' :=
  fun s => ⟨(h s).forward, (h s).reports, fun few => (h s).agree (Nat.lt_of_lt_of_le few le)⟩

/-- Behind a reading that takes a token at least, one token less remains. -/
theorem shortens_bind {f f' : α → Reading β} (h : Follows n Q r r) (shortens : Shortens r)
    (hf : ∀ a, Follows n Q (f a) (f' a)) : Follows (n + 1) Q (r >>= f) (r >>= f') := by
  have same := h.bind fun a => (Follows.self (hf a).forward (hf a).reports : Follows n Q _ _)
  refine fun s => ⟨same.forward s, (same s).reports, ?_⟩
  intro few
  refine bind_congr_of_ok fun a t first => ?_
  exact (hf a t).agree (Nat.lt_of_lt_of_le (shortens s a t first) (Nat.le_of_lt_succ few))

/-- Behind a token that is taken, one token less remains. -/
theorem next_bind {f f' : Token → Reading β} (h : ∀ token, Follows n Q (f token) (f' token))
    {s : TokenStream} (current : s.current.kind ≠ .eof) :
    FollowsAt (n + 1) Q (next >>= f) (next >>= f') s where
  forward := (Forward.next.bind fun token => (h token).forward) s
  reports := fun report s' => (h s.current s.advance).reports report s'
  agree := by
    intro few
    have fewer := TokenStream.length_ahead_drop_lt current Nat.one_pos
    exact (h s.current s.advance).agree (Nat.lt_of_lt_of_le fewer (Nat.le_of_lt_succ few))

end Follows

section Tokens

variable {n : Nat} {Q : Report → Prop} (tokens : Report.CoversTokens (fun _ => True) Q)

theorem follows_current : Follows n Q current current :=
  .self .current fun _ _ _ _ failed => nomatch failed

theorem follows_next : Follows n Q next next := .self .next Draft.reports_next

include tokens

theorem follows_expect (kind : Token.Kind) : Follows n Q (expect kind) (expect kind) :=
  .self (.expect kind) (.expect tokens kind)

theorem follows_expectName : Follows n Q expectName expectName :=
  .self .expectName (.expectName tokens)

theorem follows_expectKeyword (name : String) :
    Follows n Q (expectKeyword name) (expectKeyword name) :=
  .self (.expectKeyword name) (.expectKeyword tokens name)

theorem follows_expression : Follows n Q expression expression :=
  .self .expression (.expression tokens)

theorem follows_endBlock : Follows n Q endBlock endBlock := (follows_expect tokens _).map _

theorem follows_laterNameItem : Follows n Q laterNameItem.1 laterNameItem.1 :=
  (follows_expect tokens _).bind fun _ => follows_expectName tokens

theorem follows_output (line : Nat) : Follows n Q (output line) (output line) :=
  (follows_expression tokens).bind fun _ => (follows_expect tokens _).bind fun _ => .pure _

/-! A tag is read alike if bodies within it are. -/

variable {inner inner' : Bound → Reading Node}
  (bodies : ∀ bound, Follows n Q (inner bound) (inner' bound))

include bodies

/-- The body of a tag, and the tag that ends it. -/
theorem follows_bodyEnd (bound : Bound) (node : Node → Node) :
    Follows n Q
      (inner bound >>= fun body => endBlock >>= fun _ => Pure.pure (node body) : Reading Node)
      (inner' bound >>= fun body => endBlock >>= fun _ => Pure.pure (node body)) :=
  (bodies bound).bind fun _ => (follows_endBlock tokens).bind fun _ => .pure _

theorem follows_choice (line : Nat) : Follows n Q (choice inner line) (choice inner' line) := by
  have ends (node : Node) : Follows n Q
      (expectKeyword "endif" >>= fun _ => endBlock >>= fun _ => Pure.pure node : Reading Node) _ :=
    (follows_expectKeyword tokens _).bind fun _ => (follows_endBlock tokens).bind fun _ => .pure _
  refine (follows_expression tokens).bind fun condition => ?_
  refine (follows_endBlock tokens).bind fun _ => ?_
  refine (bodies _).bind fun first => follows_current.bind fun token => .ite ?_ (ends _)
  refine follows_next.bind fun _ => (follows_endBlock tokens).bind fun _ => ?_
  exact (bodies _).bind fun second => ends _

theorem follows_loop (line : Nat) : Follows n Q (loop inner line) (loop inner' line) := by
  refine (follows_expectName tokens).bind fun _ => (follows_expectKeyword tokens _).bind fun _ => ?_
  refine (follows_expression tokens).bind fun _ => (follows_endBlock tokens).bind fun _ => ?_
  exact follows_bodyEnd tokens bodies _ _

end Tokens

/-- What may be reported in a descent, apart from what is wrong with parameters. -/
structure Allows (Q : Report → Prop) (spent : Report) : Prop where
  tokens : Report.CoversTokens (fun _ => True) Q
  stray : ∀ kind line, Q (.onLine (.strayToken kind) line)
  orLine : ∀ (report : Report) line, Q report → Q (report.orLine line)
  spent : Q spent

/-- What is wrong with the parameters of a directive in a tag whose name is this token may be
reported too. -/
structure AllowsParameters (Q : Report → Prop) (directive : Directive) (name : Token) : Prop where
  declare : ∀ cause, Schema.ofList (directive.parameters name) = .error cause → Q (.unplaced cause)
  bind : ∀ (schema : Schema) es cause, schema.bind es = .error cause → Q (.unplaced cause)

section Parts

variable {n : Nat} {Q : Report → Prop} {spent : Report} (allows : Allows Q spent)

include allows

theorem follows_items {α : Type} {stop : Token.Kind} {item later : Reading α}
    (h : Follows n Q item item) (h' : Follows n Q later later) (fuel : Nat) :
    Follows n Q (items spent stop fuel item later) (items spent stop fuel item later) := by
  induction fuel generalizing item with
  | zero => exact .self (.throw _) (.throw allows.spent)
  | succ fuel ih =>
      refine follows_current.bind fun _ => .ite (.pure _) ?_
      exact h.bind fun _ => (ih h').bind fun _ => .pure _

theorem follows_parameters {d : Directive} {name : Token} (parameters : AllowsParameters Q d name)
    (fuel : Nat) :
    Follows n Q (Descent.parameters spent fuel d name) (Descent.parameters spent fuel d name) := by
  have unplaced {α : Type} {x : Except Cause α}
      (h : ∀ cause, x = .error cause → Q (.unplaced cause)) :
      Follows n Q (ofExcept x) (ofExcept x) := by
    refine .self (.ofExcept x) fun s report s' _ failed => ?_
    obtain ⟨cause, eq, rfl, -⟩ := ofExcept_eq_error_iff.mp failed
    exact h cause eq
  have value := follows_expression (n := n) allows.tokens
  refine (unplaced parameters.declare).bind fun schema => ?_
  refine (follows_items allows value value fuel).bind fun es => ?_
  exact (follows_endBlock allows.tokens).bind fun _ => unplaced (parameters.bind schema es)

/-- The parameters of a directive end with the closer of its tag. -/
theorem shortens_parameters (d : Directive) (name : Token) (fuel : Nat) :
    Shortens (Descent.parameters spent fuel d name) := by
  have value := follows_expression (n := 0) allows.tokens
  have items : Follows 0 Q (items spent (.closing .block) fuel expression expression) _ :=
    follows_items allows value value fuel
  refine .bind_right (.ofExcept _) fun schema => .bind_right items.forward fun es => ?_
  intro s bound s' h
  obtain ⟨_, t, closes, binds⟩ := bind_eq_ok_iff.mp h
  obtain ⟨closed, rfl⟩ := endBlock_eq_ok_iff.mp closes
  obtain ⟨-, rfl⟩ := ofExcept_eq_ok_iff.mp binds
  simp [TokenStream.prepend]

variable {inner inner' : Bound → Reading Node}
  (bodies : ∀ bound, Follows n Q (inner bound) (inner' bound))

include bodies

theorem follows_definition (fuel line : Nat) :
    Follows n Q (definition spent fuel inner line) (definition spent fuel inner' line) := by
  have tokens := allows.tokens
  refine (follows_expectName tokens).bind fun _ => (follows_expect tokens _).bind fun _ => ?_
  refine (follows_items allows (follows_expectName tokens) (follows_laterNameItem tokens) fuel).bind
    fun _ => ?_
  refine (follows_expect tokens _).bind fun _ => (follows_endBlock tokens).bind fun _ => ?_
  exact follows_bodyEnd tokens bodies _ _

/-- A directive is alike where one more token remains: its body begins behind its tag. -/
theorem follows_directive {d : Directive} {name : Token} (parameters : AllowsParameters Q d name)
    (fuel : Nat) :
    Follows (n + 1) Q (directive spent fuel inner d name)
      (directive spent fuel inner' d name) := by
  have first := follows_parameters (n := n) allows parameters fuel
  refine first.shortens_bind (shortens_parameters allows d name fuel) fun _ => .ite ?_ (.pure _)
  exact follows_bodyEnd allows.tokens bodies _ fun body => d.node name.line _ (some body)

variable {dialect : Dialect}
  (directives : ∀ name d, dialect.find? name = some d →
    ∀ token, AllowsParameters Q d token)

include directives

theorem follows_tag (fuel line : Nat) (name : String) :
    Follows n Q (tag spent fuel inner line dialect name)
      (tag spent fuel inner' line dialect name) := by
  refine .ite (follows_choice allows.tokens bodies line)
    (.ite (follows_loop allows.tokens bodies line)
      (.ite (follows_definition allows bodies fuel line) ?_))
  cases found : dialect.find? name with
  | some d =>
      have accepted := directives name d found ⟨.name name, line⟩
      have whole := follows_directive allows bodies accepted fuel
      exact (whole.mono (Nat.le_succ n)).orLine allows.orLine line
  | none =>
      exact .self (.throw _) (.throw (allows.tokens.onLine (Draft.atToken_foreignTag name) trivial))

theorem follows_block (fuel : Nat) (bound : Bound) (start : Body) :
    Follows n Q (block spent fuel inner dialect bound start)
      (block spent fuel inner' dialect bound start) := by
  refine follows_current.bind fun token => ?_
  cases token.kind with
  | name name =>
      refine .ite (.ite (follows_next.map _) (.pure _)) ?_
      exact follows_next.bind fun _ =>
        (follows_tag allows bodies directives fuel token.line name).map _
  | _ => exact .self (.throw _) (.throw (allows.tokens.onLine trivial trivial))

/-- A round is alike where one more token remains: no body begins in it without a token taken. -/
theorem follows_round (fuel : Nat) (bound : Bound) (start : Body) :
    Follows (n + 1) Q (round spent fuel inner dialect bound start)
      (round spent fuel inner' dialect bound start) := by
  intro s
  -- in each case that goes on, a token is taken first; what follows it has a token less to go
  cases kind : s.current.kind with
  | text value =>
      have taken (token : Token) : Follows n Q
          (Pure.pure (.inl (start.push (.text token.line value))) : Reading (Body ⊕ Node)) _ :=
        .pure _
      refine (Follows.next_bind taken (by simp [kind])).of_eq ?_ ?_
      · simp only [round, kind]
      · simp only [round, kind]
  | opening form =>
      cases form with
      | output =>
          have taken (token : Token) : Follows n Q
              ((fun node => .inl (start.push node)) <$> output token.line :
                Reading (Body ⊕ Node)) _ :=
            (follows_output allows.tokens token.line).map _
          refine (Follows.next_bind taken (by simp [kind])).of_eq ?_ ?_
          · simp only [round, kind]
          · simp only [round, kind]
      | block =>
          have taken := follows_block allows bodies directives fuel bound start
          refine (Follows.next_bind (fun _ => taken) (by simp [kind])).of_eq ?_ ?_
          · simp only [round, kind]
          · simp only [round, kind]
  | eof =>
      have ended : Follows (n + 1) Q
          (if bound = .atEnd then Pure.pure (.inr start.node)
            else throw (.onLine .endOfTemplate s.current.line) : Reading (Body ⊕ Node)) _ :=
        .ite (.pure _) (.self (.throw _) (.throw (allows.tokens.onLine trivial trivial)))
      refine (ended s).of_eq ?_ ?_
      · simp only [round, kind]
        split <;> rfl
      · simp only [round, kind]
        split <;> rfl
  | _ =>
      have stray : Follows (n + 1) Q (throw (.onLine (.strayToken s.current.kind) s.current.line) :
          Reading (Body ⊕ Node)) _ :=
        .self (.throw _) (.throw (allows.stray _ _))
      refine (stray s).of_eq ?_ ?_
      · simp only [round, kind]
        rfl
      · simp only [round, kind]
        rfl

end Parts

/-! Anything may be reported. -/

theorem coversTokens_all : Report.CoversTokens (fun _ => True) fun _ => True :=
  ⟨fun _ _ => trivial⟩

theorem reports_all {α : Type} (r : Reading α) : Reports (fun _ => True) (fun _ => True) r :=
  fun _ _ _ _ _ => trivial

theorem allows_all (spent : Report) : Allows (fun _ => True) spent :=
  ⟨coversTokens_all, fun _ _ => trivial, fun _ _ _ => trivial, trivial⟩

theorem allowsParameters_all (d : Directive) (name : Token) :
    AllowsParameters (fun _ => True) d name :=
  ⟨fun _ _ => trivial, fun _ _ _ _ => trivial⟩

theorem allowsAll_directives (dialect : Dialect) (name : String) (d : Directive)
    (_ : dialect.find? name = some d) (token : Token) :
    AllowsParameters (fun _ => True) d token :=
  allowsParameters_all d token

/-! ## Rounds -/

section Rounds

variable {spent : Report} {dialect : Dialect}

/-- A round that goes on takes a token at least. -/
theorem length_lt_of_round {fuel : Nat} {inner : Bound → Reading Node}
    (forward : ∀ bound, Forward (inner bound)) {bound : Bound} {start longer : Body}
    {s s' : TokenStream}
    (h : round spent fuel inner dialect bound start s = .ok (.inl longer) s') :
    s'.ahead.length < s.ahead.length := by
  have bodies (bound : Bound) : Follows 0 (fun _ => True) (inner bound) (inner bound) :=
    .self (forward bound) (reports_all _)
  cases kind : s.current.kind with
  | text value =>
      simp only [round, kind] at h
      exact length_lt_of_next_bind (fun _ => .pure _) (by simp [kind]) h
  | opening form =>
      cases form with
      | output =>
          simp only [round, kind] at h
          have value (line : Nat) := follows_output (n := 0) coversTokens_all line
          exact length_lt_of_next_bind (fun token => (value token.line).forward.map _)
            (by simp [kind]) h
      | block =>
          simp only [round, kind] at h
          have block := follows_block (allows_all spent) bodies (allowsAll_directives dialect) fuel
            bound start
          exact length_lt_of_next_bind (fun _ => block.forward) (by simp [kind]) h
  | eof =>
      simp only [round, kind] at h
      split at h <;> cases h
  | _ =>
      simp only [round, kind] at h
      cases h

/-- A body moves forward, and only what is allowed is reported about it. -/
theorem follows_body {Q : Report → Prop} (allows : Allows Q spent)
    (directives : ∀ name d, dialect.find? name = some d →
    ∀ token, AllowsParameters Q d token) (n fuel : Nat)
    (bound : Bound) (start : Body) :
    Follows n Q (body spent dialect fuel bound start) (body spent dialect fuel bound start) := by
  induction fuel generalizing bound start with
  | zero => exact .self (.throw _) (.throw allows.spent)
  | succ fuel ih =>
      have bodies (bound : Bound) : Follows n Q (wholeBody spent dialect fuel bound)
          (wholeBody spent dialect fuel bound) := follows_current.bind fun _ => ih _ _
      have first := follows_round allows bodies directives fuel bound start
      rw [body_succ]
      refine (Follows.self first.forward first.reports).bind ?_
      rintro (longer | node)
      · exact ih bound longer
      · exact .pure _

theorem follows_wholeBody {Q : Report → Prop} (allows : Allows Q spent)
    (directives : ∀ name d, dialect.find? name = some d →
    ∀ token, AllowsParameters Q d token) (n fuel : Nat)
    (bound : Bound) :
    Follows n Q (wholeBody spent dialect fuel bound) (wholeBody spent dialect fuel bound) :=
  follows_current.bind fun _ => follows_body allows directives n fuel bound _

theorem forward_wholeBody (fuel : Nat) (bound : Bound) :
    Forward (wholeBody spent dialect fuel bound) :=
  (follows_wholeBody (allows_all spent) (allowsAll_directives dialect) 0 fuel bound).forward

end Rounds

end Descent

end SheetMarkup
