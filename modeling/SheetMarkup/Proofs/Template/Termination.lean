import SheetMarkup.Proofs.Spreadsheet
import SheetMarkup.Proofs.Template.Descent
import SheetMarkup.Proofs.Template.Frames

/-!
# The end of every reading

The fuel of a recursive descent is never spent if it is enough for more rounds than there are
tokens, however the tokens follow each other and wherever the reading is to stop: what comes of the
descent is what comes of reading with a stack (`Descent.body_eq`). This goes by induction on the
fuel, from two facts about a round. It is one construct of the stack (`Descent.round_rest`), if the
bodies of tags are read as with the stack; and they are, since fewer tokens remain where they begin.

The main result is `descent_ends`.
-/

namespace SheetMarkup

open Reading

namespace Descent

/-! ## The descent and the stack -/

section Stack

/-- A reading that is placed already is not placed again. -/
theorem orLine_of_reports {α : Type} {r : Reading α}
    (h : Reports (fun _ => True) (Report.On fun _ => True) r) (line : Nat) : r.orLine line = r := by
  funext s
  cases failed : r s with
  | ok a t => simp only [orLine, failed]
  | error report t =>
      obtain ⟨-, known, eq, -⟩ := h s report t (fun _ _ => trivial) failed
      simp only [orLine, failed, Located.orLine_of_line eq]

theorem orLine_bind {α β : Type} (r : Reading α) (f : α → Reading β) (line : Nat) :
    (r >>= f).orLine line = r.orLine line >>= fun a => (f a).orLine line := by
  funext s
  simp only [orLine, bind, EStateM.bind]
  cases r s <;> rfl

variable (spent : Report) {fuel : Nat}

/-- A loop reads what the repetition reads, if it has fuel for more rounds than there are tokens. -/
theorem items_eq_collect {α : Type} {stop : Token.Kind} {item later : Item α} {s : TokenStream}
    (few : s.ahead.length < fuel) :
    items spent stop fuel item.1 later.1 s = collect stop item later s := by
  induction fuel generalizing item s with
  | zero => exact absurd few (Nat.not_lt_zero _)
  | succ fuel ih =>
      rw [items, current_bind, collect]
      split
      · rfl
      · split
        · next report t failed => rw [bind_of_eq_error failed]
        · next a t first =>
          have fewer : t.ahead.length < fuel :=
            Nat.lt_of_lt_of_le (item.2 s a t first) (Nat.le_of_lt_succ few)
          rw [bind_of_eq_ok first]
          cases others : collect stop later later t with
          | error report u => rw [bind_of_eq_error ((ih fewer).trans others)]
          | ok as u =>
              rw [bind_of_eq_ok ((ih fewer).trans others)]
              rfl

theorem follows_collect {α : Type} {stop : Token.Kind} (item later : Item α)
    (h : Forward item.1) (h' : Forward later.1) :
    Follows fuel (fun _ => True) (items spent stop fuel item.1 later.1)
      (collect stop item later : Reading (List α)) := by
  have forward : Forward (items spent stop fuel item.1 later.1) :=
    (follows_items (n := 0) (allows_all spent) (.self h (reports_all _)) (.self h' (reports_all _))
      fuel).forward
  exact fun s => ⟨forward s, fun _ _ _ => trivial, items_eq_collect spent⟩

variable {dialect : Dialect} {inner : Bound → Reading Node}
  (bodies : ∀ bound, Follows fuel (fun _ => True) (inner bound) (dialect.readBody bound))

include bodies

/-- The body of a tag with one body, and the tag that ends it. -/
theorem follows_readRest (tag : OpenTag)
    (single : ∀ line condition, tag ≠ .thenBody line condition) :
    Follows fuel (fun _ => True)
      (inner (.atTag tag.ends true) >>= fun body => endBlock >>= fun _ => Pure.pure (tag.node body))
      (dialect.readRest tag) := by
  rw [dialect.readRest_eq single]
  exact follows_bodyEnd coversTokens_all bodies _ _

theorem follows_choice_readRest (line : Nat) :
    Follows fuel (fun _ => True) (choice inner line)
      (expression >>= fun condition => endBlock >>= fun _ =>
        dialect.readRest (.thenBody line condition)) := by
  simp only [dialect.readRest_thenBody]
  exact follows_choice coversTokens_all bodies line

theorem follows_loop_readRest (line : Nat) :
    Follows fuel (fun _ => True) (loop inner line)
      (expectName >>= fun binding => expectKeyword "in" >>= fun _ => expression >>= fun iterable =>
        endBlock >>= fun _ => dialect.readRest (.loop line binding iterable)) := by
  have tokens := coversTokens_all
  refine (follows_expectName tokens).bind fun _ => (follows_expectKeyword tokens _).bind fun _ => ?_
  refine (follows_expression tokens).bind fun _ => (follows_endBlock tokens).bind fun _ => ?_
  exact follows_readRest bodies (.loop ..) nofun

theorem follows_definition_readRest (line : Nat) :
    Follows fuel (fun _ => True) (definition spent fuel inner line)
      (expectName >>= fun name => expect (.symbol .openParen) >>= fun _ =>
        (collect (.symbol .closeParen) nameItem laterNameItem : Reading (List String)) >>=
          fun arguments => expect (.symbol .closeParen) >>= fun _ => endBlock >>= fun _ =>
            dialect.readRest (.definition line name arguments)) := by
  have tokens := coversTokens_all
  have later : Forward laterNameItem.1 := (Forward.expect _).bind fun _ => .expectName
  refine (follows_expectName tokens).bind fun _ => (follows_expect tokens _).bind fun _ => ?_
  refine (follows_collect spent nameItem laterNameItem .expectName later).bind fun _ => ?_
  refine (follows_expect tokens _).bind fun _ => (follows_endBlock tokens).bind fun _ => ?_
  exact follows_readRest bodies (.definition ..) nofun

omit bodies in
theorem follows_readParameters (d : Directive) (name : Token) :
    Follows fuel (fun _ => True) (parameters spent fuel d name) (d.readParameters name) := by
  refine (Follows.self (.ofExcept _) (reports_all _)).bind fun schema => ?_
  refine (follows_collect spent expressionItem expressionItem .expression .expression).bind
    fun es => ?_
  exact (follows_endBlock coversTokens_all).bind fun _ => .self (.ofExcept _) (reports_all _)

/-- A directive is read as it is by itself. -/
theorem follows_readDirective (d : Directive) (name : Token) :
    Follows fuel (fun _ => True) (directive spent fuel inner d name)
      (dialect.readDirective d name) := by
  refine (follows_readParameters spent d name).bind fun parameters => .ite ?_ (.pure _)
  exact follows_bodyEnd coversTokens_all bodies _ fun body =>
    d.node name.line parameters (some body)

omit bodies in
/-- Behind the parameters of a directive all reports have a line. -/
theorem orLine_readDirective (d : Directive) (name : Token) :
    (dialect.readDirective d name).orLine name.line =
      (d.readParameters name).orLine name.line >>= fun parameters =>
        if d.hasBody then dialect.readRest (.directive name.line d parameters)
        else Pure.pure (d.node name.line parameters none) := by
  rw [Dialect.readDirective, orLine_bind]
  refine bind_congr fun parameters => ?_
  split
  · have single : ∀ first condition,
        OpenTag.directive name.line d parameters ≠ .thenBody first condition := nofun
    rw [dialect.readRest_eq single]
    apply orLine_of_reports
    intro s report s' _ failed
    have covers := (Report.covers_on fun _ => True).tokens
    rcases bind_eq_error_iff.mp failed with first | ⟨body, t, -, behind⟩
    · exact Draft.reports_read _ dialect _ s report s' (fun _ _ => trivial) first
    · rcases bind_eq_error_iff.mp behind with ends | ⟨_, _, -, done⟩
      · exact Draft.reports_endBlock covers t report s' (fun _ _ => trivial) ends
      · cases done
  · rfl

theorem follows_readTag (line : Nat) (name : String) :
    Follows fuel (fun _ => True) (tag spent fuel inner line dialect name)
      (dialect.readTag line name) := by
  refine .ite (follows_choice_readRest bodies line) (.ite (follows_loop_readRest bodies line)
    (.ite (follows_definition_readRest spent bodies line) ?_))
  cases dialect.find? name with
  | some d =>
      let named : Token := ⟨.name name, line⟩
      have read : Follows fuel (fun _ => True) (directive spent fuel inner d named) _ :=
        follows_readDirective spent bodies d named
      have placed := read.orLine (fun _ _ _ => trivial) named.line
      rw [orLine_readDirective] at placed
      exact placed
  | none => exact .self (.throw _) (reports_all _)

/-- What follows a round. -/
def goOn (dialect : Dialect) (bound : Bound) : Body ⊕ Node → Reading Node
  | .inl longer => Draft.rest ⟨longer, []⟩ dialect bound
  | .inr node => return node

/-- A block tag is read as with a stack, and the reading goes on. -/
theorem block_rest (bound : Bound) (start : Body) {s : TokenStream} (few : s.ahead.length < fuel) :
    (block spent fuel inner dialect bound start >>= goOn dialect bound) s =
      (Draft.readBlock ⟨start, []⟩ dialect bound >>= Draft.goOn dialect bound) s := by
  simp only [block, Draft.readBlock, bind_assoc, current_bind]
  cases s.current.kind with
  | name name =>
      dsimp only
      split
      · split <;> rfl
      · have fewer : s.advance.ahead.length < fuel :=
          Nat.lt_of_le_of_lt (Forward.next.ok (rfl : next s = _)).length_le few
        have whole := (follows_readTag spent bodies s.current.line name s.advance).agree
          fewer
        simp only [bind_assoc, next_bind, ← bind_pure_comp, pure_bind, goOn, Draft.goOn]
        rw [bind_of_eq whole, Draft.openTag_rest]
  | _ => rfl

/-- A round is one construct. -/
theorem round_rest (bound : Bound) (start : Body) {s : TokenStream}
    (few : s.ahead.length < fuel + 1) :
    (round spent fuel inner dialect bound start >>= goOn dialect bound) s =
      Draft.rest ⟨start, []⟩ dialect bound s := by
  rw [Draft.rest_eq]
  cases kind : s.current.kind with
  | text value =>
      simp only [round, Draft.step, kind, bind, EStateM.bind]
      rfl
  -- an opener is a token taken, so the fuel is enough for what is behind it
  | opening form =>
      have fewer : s.advance.ahead.length < fuel := by
        have shorter := TokenStream.length_ahead_drop_lt (s := s) (by simp [kind]) Nat.one_pos
        exact Nat.lt_of_lt_of_le shorter (Nat.le_of_lt_succ few)
      cases form with
      | output =>
          have here : round spent fuel inner dialect bound start s =
              (next >>= fun token => (fun node => .inl (start.push node)) <$> output token.line :
                Reading (Body ⊕ Node)) s := by
            simp only [round, kind]
          rw [bind_of_eq here, bind_of_eq (Draft.step_of_output kind)]
          simp only [output, Draft.readOutput, bind_assoc, ← bind_pure_comp, pure_bind, goOn,
            Draft.goOn]
          rfl
      | block =>
          have here : round spent fuel inner dialect bound start s =
              (next >>= fun _ => block spent fuel inner dialect bound start) s := by
            simp only [round, kind]
          rw [bind_of_eq here, bind_assoc, bind_of_eq (Draft.step_of_block kind)]
          exact block_rest spent bodies bound start fewer
  | eof =>
      by_cases whole : bound = .atEnd
      · simp only [round, Draft.step, kind, bind, EStateM.bind, List.isEmpty_nil, whole, and_self,
          if_true]
        rfl
      · simp only [round, Draft.step, kind, bind, EStateM.bind, whole, and_false, if_false]
  | _ =>
      simp only [round, Draft.step, kind, bind, EStateM.bind]

end Stack

/-! ## Enough fuel -/

section Ends

variable {spent : Report} {dialect : Dialect}

/-- With fuel for more rounds than there are tokens, a body is read as with a stack. -/
theorem body_eq {fuel : Nat} {bound : Bound} {start : Body} {s : TokenStream}
    (few : s.ahead.length < fuel) :
    body spent dialect fuel bound start s = Draft.rest ⟨start, []⟩ dialect bound s := by
  induction fuel generalizing bound start s with
  | zero => exact absurd few (Nat.not_lt_zero _)
  | succ fuel ih =>
      have bodies (bound : Bound) : Follows fuel (fun _ => True)
          (wholeBody spent dialect fuel bound) (dialect.readBody bound) :=
        fun t => ⟨forward_wholeBody fuel bound t, fun _ _ _ => trivial, fun fewer => ih fewer⟩
      rw [body_succ, ← round_rest spent bodies bound start few]
      refine bind_congr_of_ok fun next t first => ?_
      cases next with
      | inl longer =>
          have shorter := length_lt_of_round (forward_wholeBody fuel) first
          exact ih (Nat.lt_of_lt_of_le shorter (Nat.le_of_lt_succ few))
      | inr node => rfl

theorem follows_readBody (spent : Report) (dialect : Dialect) (fuel : Nat) (bound : Bound) :
    Follows fuel (fun _ => True) (wholeBody spent dialect fuel bound) (dialect.readBody bound) :=
  fun s => ⟨forward_wholeBody fuel bound s, fun _ _ _ => trivial, fun few => body_eq few⟩

/-- A report about a template, and not about a directive that declares a parameter twice. -/
def Proper (report : Report) : Prop := ∀ name, report.cause ≠ .declaredTwice name

theorem allows_proper : Allows Proper (.unplaced .namelessTag) where
  tokens := ⟨fun {cause _} token _ name eq => by
    subst eq
    exact token⟩
  stray := fun _ _ _ => nofun
  orLine := fun _ _ proper => proper
  spent := nofun

theorem allowsParameters_proper {d : Directive} {name : Token}
    (distinct : ((d.parameters name).map Parameter.name).Nodup) :
    AllowsParameters Proper d name where
  declare := by
    intro cause failed
    cases (Schema.ofList_eq_ok distinct).symm.trans failed
  bind := by
    intro schema es cause failed name
    rcases Parameter.cause_of_bind (Schema.bind_eq_error_iff.mp failed) with rfl | rfl
    · nofun
    · nofun

/-- What is read from a stream comes to an end in a value or a proper report. -/
structure EndsFrom (dialect : Dialect) (s : TokenStream) : Prop where
  /-- More rounds than there are tokens are never needed to read a body. -/
  body : ∀ spent fuel bound, s.ahead.length < fuel →
    wholeBody spent dialect fuel bound s = dialect.readBody bound s
  /-- Nor are they to read a directive. -/
  directive : ∀ spent fuel d name, s.ahead.length < fuel →
    Descent.directive spent fuel (wholeBody spent dialect fuel) d name s =
      dialect.readDirective d name s
  reportsBody : ∀ bound report s', dialect.readBody bound s = .error report s' → Proper report
  reportsDirective : ∀ (d : Directive) name report s',
    ((d.parameters name).map Parameter.name).Nodup →
      dialect.readDirective d name s = .error report s' → Proper report
  /-- An expression takes a token at least, or it is refused and nothing is taken. -/
  expression : (∃ e s', Reading.expression s = .ok e s' ∧ s'.ahead.length < s.ahead.length) ∨
    ∃ report, Reading.expression s = .error report s ∧ Proper report
  /-- A round of the loop over constructs that goes on takes a token at least. -/
  round : ∀ spent fuel bound start longer s',
    Descent.round spent fuel (wholeBody spent dialect fuel) dialect bound start s =
        .ok (.inl longer) s' →
      s'.ahead.length < s.ahead.length
  /-- So does a round of the loop over the arguments of a macro. -/
  argument : ∀ item ∈ [nameItem, laterNameItem], ∀ name s', item.1 s = .ok name s' →
    s'.ahead.length < s.ahead.length
  /-- What a round comes to depends on bodies only where fewer tokens remain. -/
  roundBodies : ∀ spent fuel bound start (inner inner' : Bound → Reading Node),
    (∀ bound, Forward (inner bound)) →
      (∀ bound t, t.ahead.length < s.ahead.length → inner bound t = inner' bound t) →
        Descent.round spent fuel inner dialect bound start s =
          Descent.round spent fuel inner' dialect bound start s
  /-- So does what a directive comes to. -/
  directiveBodies : ∀ spent fuel d name (inner inner' : Bound → Reading Node),
    (∀ bound, Forward (inner bound)) →
      (∀ bound t, t.ahead.length < s.ahead.length → inner bound t = inner' bound t) →
        Descent.directive spent fuel inner d name s = Descent.directive spent fuel inner' d name s

section Distinct

variable (distinct : ∀ name d, dialect.find? name = some d →
  ∀ token, ((d.parameters token).map Parameter.name).Nodup)

include distinct

theorem follows_wholeBody_proper (n fuel : Nat) (bound : Bound) :
    Follows n Proper (wholeBody (.unplaced .namelessTag) dialect fuel bound)
      (wholeBody (.unplaced .namelessTag) dialect fuel bound) :=
  follows_wholeBody allows_proper
    (fun name d found token => allowsParameters_proper (distinct name d found token)) n fuel bound

theorem proper_of_readBody {bound : Bound} {report : Report} {s s' : TokenStream}
    (failed : dialect.readBody bound s = .error report s') : Proper report := by
  have read := follows_readBody (.unplaced .namelessTag) dialect (s.ahead.length + 1) bound s
  have body := follows_wholeBody_proper distinct 0 (s.ahead.length + 1) bound s
  exact body.reports report s' ((read.agree (Nat.lt_succ_self _)).trans failed)

theorem proper_of_readDirective {d : Directive} {name : Token} {report : Report}
    {s s' : TokenStream} (own : ((d.parameters name).map Parameter.name).Nodup)
    (failed : dialect.readDirective d name s = .error report s') : Proper report := by
  have bodies := follows_readBody (.unplaced .namelessTag) dialect (s.ahead.length + 1)
  have read := follows_readDirective (.unplaced .namelessTag) bodies d name s
  have whole := follows_directive allows_proper
    (follows_wholeBody_proper distinct 0 (s.ahead.length + 1)) (allowsParameters_proper own)
    (s.ahead.length + 1) s
  exact whole.reports report s' ((read.agree (Nat.lt_succ_self _)).trans failed)

end Distinct

/-- An expression takes a token at least, or it is refused where it stands. -/
theorem expression_ends (s : TokenStream) :
    (∃ e s', expression s = .ok e s' ∧ s'.ahead.length < s.ahead.length) ∨
      ∃ report, expression s = .error report s ∧ Proper report := by
  cases read : expression s with
  | ok e s' => exact .inl ⟨e, s', rfl, Shortens.expression s e s' read⟩
  | error report s' =>
      simp only [expression] at read
      split at read
      · cases read
      · cases read
        exact .inr ⟨_, rfl, by simp [Proper, Located.onLine]⟩

end Ends

end Descent

open Descent

/-- Every reading of a body or a directive comes to an end, whatever tokens follow each other and
wherever it is to stop, if all parameters of a directive have distinct names. -/
theorem descent_ends {dialect : Dialect}
    (distinct : ∀ name d, dialect.find? name = some d →
      ∀ token, ((d.parameters token).map Parameter.name).Nodup)
    (s : TokenStream) : EndsFrom dialect s where
  body := fun _ _ _ few => body_eq few
  directive := fun spent fuel d name few =>
    (follows_readDirective spent (follows_readBody spent dialect fuel) d name s).agree few
  reportsBody := fun _ _ _ failed => proper_of_readBody distinct failed
  reportsDirective := fun _ _ _ _ own failed => proper_of_readDirective distinct own failed
  expression := expression_ends s
  round := fun _ fuel _ _ _ _ goes => length_lt_of_round (forward_wholeBody fuel) goes
  argument := fun item _ name s' taken => item.2 s name s' taken
  roundBodies := by
    intro spent fuel bound start inner inner' forward same
    have bodies (bound : Bound) :
        Follows s.ahead.length (fun _ => True) (inner bound) (inner' bound) :=
      fun t => ⟨forward bound t, fun _ _ _ => trivial, same bound t⟩
    have alike := follows_round (allows_all spent) bodies (allowsAll_directives dialect) fuel bound
      start
    exact (alike s).agree (Nat.lt_succ_self _)
  directiveBodies := by
    intro spent fuel d name inner inner' forward same
    have bodies (bound : Bound) :
        Follows s.ahead.length (fun _ => True) (inner bound) (inner' bound) :=
      fun t => ⟨forward bound t, fun _ _ _ => trivial, same bound t⟩
    have alike := follows_directive (allows_all spent) bodies (allowsParameters_all d name) fuel
    exact (alike s).agree (Nat.lt_succ_self _)

/-- A condition with an end amid the tokens, before the tag that would close it. -/
theorem descent_ends_amid :
    let behind : List Token := [⟨.opening .block, 2⟩, ⟨.name "endif", 2⟩, ⟨.closing .block, 2⟩]
    let s : TokenStream := .ofList ([⟨.opening .block, 1⟩, ⟨.name "if", 1⟩, ⟨.name "a", 1⟩,
      ⟨.closing .block, 1⟩, ⟨.eof, 1⟩] ++ behind)
    EndsFrom (.spreadsheet .empty) s ∧
      (Dialect.spreadsheet .empty).readBody (.atName (fun token => token.line = 2) true) s =
        .error (.onLine .endOfTemplate 1) ⟨⟨.eof, 1⟩ :: behind, 2⟩ := by
  intro behind s
  have ends : EndsFrom (.spreadsheet .empty) s := by
    refine descent_ends ?_ s
    intro name d found token
    obtain ⟨element, -, rfl⟩ := Dialect.exists_element_of_find? found
    have nodup : (element.parameters.map Parameter.name).Nodup := by cases element <;> decide
    exact nodup
  refine ⟨ends, ?_⟩
  rw [← ends.body (.unplaced .namelessTag) 9 _ (by decide)]
  rfl

end SheetMarkup
