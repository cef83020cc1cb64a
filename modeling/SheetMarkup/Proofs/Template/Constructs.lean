import SheetMarkup.Proofs.Template.Readings

/-!
# The constructs of a template

`Draft.step` reads one construct. `Draft.Takes` says what it can be, without regard to how it is
read: the tokens of the construct, the line of what follows them, and the draft that comes of it.
Every step that goes on is such a construct and every such construct is read by a step
(`Draft.step_eq_inl_iff`). What is proved of templates is proved by cases on `Draft.Takes`.
-/

namespace SheetMarkup

open Grammar Reading
open Token (kinds)

/-! ## The rows inside of tags -/

/-- Expressions one after another, each as long as it can be. -/
inductive ExpressionRow : List Token → List Expr → Prop
  | nil : ExpressionRow [] []
  | cons {taken more : List Token} {e : Expr} {es : List Expr} :
      LongestExpression (taken ++ more) taken e → ExpressionRow more es →
        ExpressionRow (taken ++ more) (e :: es)

/-- Names behind commas. -/
def laterNames (names : List String) : List Token.Kind :=
  names.flatMap fun name => [.symbol .comma, .name name]

/-- Names with commas between them. -/
def nameRow : List String → List Token.Kind
  | [] => []
  | name :: more => .name name :: laterNames more

theorem ExpressionRow.isInner {row : List Token} {es : List Expr} (h : ExpressionRow row es) :
    ∀ token ∈ row, token.kind.IsInner := by
  induction h with
  | nil => simp
  | cons longest _ ih =>
      intro token mem
      rcases List.mem_append.mp mem with mem | mem
      · exact longest.2.1.isInner token mem
      · exact ih token mem

theorem isInner_of_mem_nameRow {names : List String} {k : Token.Kind} (h : k ∈ nameRow names) :
    k.IsInner := by
  cases names with
  | nil => cases h
  | cons name more =>
      rcases List.mem_cons.mp h with rfl | h
      · exact trivial
      · obtain ⟨other, -, mem⟩ := List.mem_flatMap.mp h
        simp only [List.mem_cons, List.not_mem_nil, or_false] at mem
        rcases mem with rfl | rfl <;> exact trivial

/-- Parameters are read up to the closer of their tag. -/
theorem collect_expressions_eq_ok_iff {s s' : TokenStream} {es : List Expr} :
    collect (.closing .block) expressionItem expressionItem s = .ok es s' ↔
      ∃ row, s = s'.prepend row ∧ ExpressionRow row es ∧ s'.current.kind = .closing .block := by
  induction es generalizing s with
  | nil =>
      rw [collect_eq_ok_iff]
      constructor
      · rintro (⟨stop, -, rfl⟩ | ⟨-, _, _, _, -, -, eq⟩)
        · exact ⟨[], rfl, .nil, stop⟩
        · cases eq
      · rintro ⟨row, rfl, items, stop⟩
        cases items
        exact .inl ⟨stop, rfl, rfl⟩
  | cons e es ih =>
      rw [collect_eq_ok_iff]
      constructor
      · rintro (⟨-, eq, -⟩ | ⟨-, _, _, t, first, more, eq⟩)
        · cases eq
        · cases eq
          obtain ⟨taken, rfl, longest⟩ := expression_eq_ok_iff.mp first
          obtain ⟨row, rfl, items, stop⟩ := ih.mp more
          obtain ⟨tail, rest⟩ := s'.exists_remaining_eq
          rw [TokenStream.remaining_prepend, TokenStream.remaining_prepend, rest,
            ← List.append_assoc,
            LongestExpression.append_iff (stop ▸ Token.Kind.not_isInner_closing _)] at longest
          -- the closer behind the row bounds what the expression could take
          exact ⟨taken ++ row, (TokenStream.prepend_append _ _ _).symm, .cons longest items, stop⟩
      · rintro ⟨row, rfl, items, stop⟩
        cases items with
        | @cons taken more _ _ longest items =>
            obtain ⟨tail, rest⟩ := s'.exists_remaining_eq
            refine .inr ⟨?_, e, es, s'.prepend more, ?_, ?_, rfl⟩
            · cases taken with
              | nil => exact absurd rfl longest.2.1.kinds_ne_nil
              | cons token taken =>
                  exact (longest.2.1.isInner token (by simp)).ne_closing _
            · refine expression_eq_ok_iff.mpr ⟨taken, TokenStream.prepend_append _ _ _, ?_⟩
              rwa [TokenStream.remaining_prepend, rest,
                LongestExpression.append_iff (stop ▸ Token.Kind.not_isInner_closing _)]
            · exact ih.mpr ⟨more, rfl, items, stop⟩

theorem laterNameItem_eq_ok_iff {s s' : TokenStream} {name : String} :
    laterNameItem.1 s = .ok name s' ↔
      ∃ comma line, comma.kind = .symbol .comma ∧
        s = s'.prepend [comma, ⟨.name name, line⟩] := by
  simp only [laterNameItem, bind_eq_ok_iff]
  constructor
  · rintro ⟨comma, _, first, second⟩
    obtain ⟨kind, rfl⟩ := (expect_eq_ok_iff (by simp)).mp first
    obtain ⟨line, rfl⟩ := expectName_eq_ok_iff.mp second
    exact ⟨comma, line, kind, rfl⟩
  · rintro ⟨comma, line, kind, rfl⟩
    refine ⟨comma, s'.prepend [⟨.name name, line⟩], ?_, ?_⟩
    · exact (expect_eq_ok_iff (by simp)).mpr ⟨kind, rfl⟩
    · exact expectName_eq_ok_iff.mpr ⟨line, rfl⟩

/-- The arguments of a macro behind the first one. -/
theorem collect_laterNames_eq_ok_iff {s s' : TokenStream} {names : List String} :
    collect (.symbol .closeParen) laterNameItem laterNameItem s = .ok names s' ↔
      ∃ row, s = s'.prepend row ∧ kinds row = laterNames names ∧
        s'.current.kind = .symbol .closeParen := by
  induction names generalizing s with
  | nil =>
      rw [collect_eq_ok_iff]
      constructor
      · rintro (⟨stop, -, rfl⟩ | ⟨-, _, _, _, -, -, eq⟩)
        · exact ⟨[], rfl, rfl, stop⟩
        · cases eq
      · rintro ⟨row, rfl, spelled, stop⟩
        cases List.map_eq_nil_iff.mp spelled
        exact .inl ⟨stop, rfl, rfl⟩
  | cons name names ih =>
      rw [collect_eq_ok_iff]
      constructor
      · rintro (⟨-, eq, -⟩ | ⟨-, _, _, t, first, more, eq⟩)
        · cases eq
        · cases eq
          obtain ⟨comma, line, kind, rfl⟩ := laterNameItem_eq_ok_iff.mp first
          obtain ⟨row, rfl, spelled, stop⟩ := ih.mp more
          exact ⟨comma :: ⟨.name name, line⟩ :: row, rfl, by simp [kind, spelled, laterNames], stop⟩
      · rintro ⟨row, rfl, spelled, stop⟩
        obtain ⟨comma, row, rfl, kind, behind⟩ := List.map_eq_cons_iff.mp spelled
        obtain ⟨⟨_, line⟩, row, rfl, rfl, others⟩ := List.map_eq_cons_iff.mp behind
        refine .inr ⟨by simp [kind], name, names, s'.prepend row, ?_, ?_, rfl⟩
        · exact laterNameItem_eq_ok_iff.mpr ⟨comma, line, kind, rfl⟩
        · exact ih.mpr ⟨row, rfl, others, stop⟩

/-- The arguments of a macro are read up to the closing parenthesis. -/
theorem collect_names_eq_ok_iff {s s' : TokenStream} {names : List String} :
    collect (.symbol .closeParen) nameItem laterNameItem s = .ok names s' ↔
      ∃ row, s = s'.prepend row ∧ kinds row = nameRow names ∧
        s'.current.kind = .symbol .closeParen := by
  rw [collect_eq_ok_iff]
  constructor
  · rintro (⟨stop, rfl, rfl⟩ | ⟨-, name, names, t, first, more, rfl⟩)
    · exact ⟨[], rfl, rfl, stop⟩
    · obtain ⟨line, rfl⟩ := expectName_eq_ok_iff.mp first
      obtain ⟨row, rfl, spelled, stop⟩ := collect_laterNames_eq_ok_iff.mp more
      exact ⟨⟨.name name, line⟩ :: row, rfl, by simp [spelled, nameRow], stop⟩
  · rintro ⟨row, rfl, spelled, stop⟩
    cases names with
    | nil =>
        cases List.map_eq_nil_iff.mp spelled
        exact .inl ⟨stop, rfl, rfl⟩
    | cons name names =>
        obtain ⟨⟨_, line⟩, row, rfl, rfl, others⟩ := List.map_eq_cons_iff.mp spelled
        refine .inr ⟨by simp, name, names, s'.prepend row, ?_, ?_, rfl⟩
        · change expectName (s'.prepend (⟨.name name, line⟩ :: row)) = .ok name (s'.prepend row)
          exact expectName_eq_ok_iff.mpr ⟨line, rfl⟩
        · exact collect_laterNames_eq_ok_iff.mpr ⟨row, rfl, others, stop⟩

theorem endBlock_eq_ok_iff {s s' : TokenStream} {u : Unit} :
    endBlock s = .ok u s' ↔ ∃ line, s = s'.prepend [⟨.closing .block, line⟩] := by
  rw [endBlock, discard_eq_ok_iff]
  constructor
  · rintro ⟨⟨_, line⟩, h⟩
    obtain ⟨rfl, rfl⟩ := (expect_eq_ok_iff (by simp)).mp h
    exact ⟨line, rfl⟩
  · rintro ⟨line, rfl⟩
    exact ⟨_, (expect_eq_ok_iff (by simp)).mpr ⟨rfl, rfl⟩⟩

/-! ## The parts of tags -/

/-- No directive's body ends with the tag between the two bodies of a condition. -/
theorem Directive.else_ne_endTag (directive : Directive) : "else" ∉ [directive.endTag] := by
  intro mem
  have same := congrArg String.toList (List.mem_singleton.mp mem)
  simp [Directive.endTag] at same

/-- The tokens of a directive's tag behind its name, and the parameters that they are bound to. -/
def Directive.Parameters (directive : Directive) (name : Token) (row : List Token)
    (parameters : OrderedMap Expr) : Prop :=
  ∃ schema es, Schema.ofList (directive.parameters name) = .ok schema ∧ ExpressionRow row es ∧
    schema.bind es = .ok parameters

theorem Directive.Parameters.isInner {directive : Directive} {name : Token} {row : List Token}
    {parameters : OrderedMap Expr} (h : directive.Parameters name row parameters) :
    ∀ token ∈ row, token.kind.IsInner := by
  obtain ⟨_, _, -, items, -⟩ := h
  exact items.isInner

/-- What may stand behind the name of a tag with a body, up to the closer, and the tag it makes. -/
inductive Opening (dialect : Dialect) (line : Nat) : String → List Token → OpenTag → Prop
  | choice {row : List Token} {condition : Expr} : Expression (kinds row) condition →
      Opening dialect line "if" row (.thenBody line condition)
  | loop {row : List Token} {ks : List Token.Kind} {binding : String} {iterable : Expr} :
      kinds row = .name binding :: .name "in" :: ks → Expression ks iterable →
      Opening dialect line "for" row (.loop line binding iterable)
  | definition {row : List Token} {name : String} {arguments : List String} :
      kinds row =
        .name name :: .symbol .openParen :: nameRow arguments ++ [.symbol .closeParen] →
      Opening dialect line "macro" row (.definition line name arguments)
  | directive {name : String} {row : List Token} {d : Directive} {parameters : OrderedMap Expr} :
      name ∉ ["if", "for", "macro"] → dialect.find? name = some d → d.hasBody →
      d.Parameters ⟨.name name, line⟩ row parameters →
      Opening dialect line name row (.directive line d parameters)

/-- What stands behind the name of a tag are names, literals and symbols. -/
theorem Opening.isInner {dialect : Dialect} {line : Nat} {name : String} {row : List Token}
    {tag : OpenTag} (h : Opening dialect line name row tag) :
    ∀ token ∈ row, token.kind.IsInner := by
  have of_kinds : ∀ ks, (∀ k ∈ ks, k.IsInner) → kinds row = ks →
      ∀ token ∈ row, token.kind.IsInner := by
    rintro ks inner rfl token mem
    exact inner _ (List.mem_map_of_mem mem)
  cases h with
  | choice derived => exact derived.isInner
  | loop spelled derived =>
      refine of_kinds _ ?_ spelled
      have inner := derived.inner.2
      simpa [Token.Kind.IsInner] using inner
  | definition spelled =>
      refine of_kinds _ ?_ spelled
      intro k mem
      simp only [List.cons_append, List.mem_cons, List.mem_append, List.not_mem_nil,
        or_false] at mem
      rcases mem with rfl | rfl | mem | rfl
      · exact trivial
      · exact trivial
      · exact isInner_of_mem_nameRow mem
      · exact trivial
  | directive _ _ _ bound => exact bound.isInner

/-- Where a row of expressions ends with its tag, they are what is bound to the parameters. -/
theorem readParameters_prepend {directive : Directive} {name : Token} {schema : Schema}
    (declared : Schema.ofList (directive.parameters name) = .ok schema) {row : List Token}
    {es : List Expr} (items : ExpressionRow row es) (line : Nat) (s : TokenStream) :
    directive.readParameters name (s.prepend (row ++ [⟨.closing .block, line⟩])) =
      ofExcept (schema.bind es) s := by
  have split : collect (.closing .block) expressionItem expressionItem
      (s.prepend (row ++ [⟨.closing .block, line⟩])) =
      .ok es (s.prepend [⟨.closing .block, line⟩]) :=
    collect_expressions_eq_ok_iff.mpr ⟨row, TokenStream.prepend_append _ _ _, items, rfl⟩
  have closed : endBlock (s.prepend [⟨.closing .block, line⟩]) = .ok () s :=
    endBlock_eq_ok_iff.mpr ⟨line, rfl⟩
  rw [Directive.readParameters, bind_of_eq_ok (ofExcept_eq_ok_iff.mpr ⟨declared, rfl⟩),
    bind_of_eq_ok split, bind_of_eq_ok closed]

theorem readParameters_eq_ok_iff {directive : Directive} {name : Token} {s s' : TokenStream}
    {parameters : OrderedMap Expr} :
    directive.readParameters name s = .ok parameters s' ↔
      ∃ row line, s = s'.prepend (row ++ [⟨.closing .block, line⟩]) ∧
        directive.Parameters name row parameters := by
  constructor
  · intro read
    obtain ⟨schema, _, first, behind⟩ := bind_eq_ok_iff.mp read
    obtain ⟨declared, rfl⟩ := ofExcept_eq_ok_iff.mp first
    obtain ⟨es, _, second, behind⟩ := bind_eq_ok_iff.mp behind
    obtain ⟨_, _, third, last⟩ := bind_eq_ok_iff.mp behind
    obtain ⟨bound, rfl⟩ := ofExcept_eq_ok_iff.mp last
    obtain ⟨line, rfl⟩ := endBlock_eq_ok_iff.mp third
    obtain ⟨row, rfl, items, -⟩ := collect_expressions_eq_ok_iff.mp second
    exact ⟨row, line, (TokenStream.prepend_append _ _ _).symm, schema, es, declared, items, bound⟩
  · rintro ⟨row, line, rfl, schema, es, declared, items, bound⟩
    rw [readParameters_prepend declared items]
    exact ofExcept_eq_ok_iff.mpr ⟨bound, rfl⟩

/-- An open tag that is no directive's, or one of a directive with this property. -/
def OpenTag.Covered (P : Directive → Prop) : OpenTag → Prop
  | directive _ d _ => P d
  | _ => True

namespace Draft

variable {draft draft' : Draft} {s s' : TokenStream} {line : Nat}

/-- A draft whose open tags are all covered. -/
def Covered (P : Directive → Prop) (draft : Draft) : Prop :=
  ∀ entry ∈ draft.enclosing, entry.1.Covered P

/-- The draft in which the body of a tag begins on a line. -/
def within (draft : Draft) (tag : OpenTag) (line : Nat) : Draft :=
  ⟨⟨line, []⟩, (tag, draft.body) :: draft.enclosing⟩

theorem enter_eq_ok_iff {tag : OpenTag} :
    draft.enter tag s = .ok draft' s' ↔ draft' = draft.within tag s'.current.line ∧ s = s' := by
  simp only [enter, bind_eq_ok_iff, current_eq_ok_iff, pure_eq_ok_iff]
  constructor
  · rintro ⟨_, _, ⟨rfl, rfl⟩, rfl, rfl⟩
    exact ⟨rfl, rfl⟩
  · rintro ⟨rfl, rfl⟩
    exact ⟨_, _, ⟨rfl, rfl⟩, rfl, rfl⟩

theorem readOutput_eq_ok_iff :
    draft.readOutput line s = .ok draft' s' ↔
      ∃ row e closed, s = s'.prepend (row ++ [⟨.closing .output, closed⟩]) ∧
        Expression (kinds row) e ∧ draft' = draft.push (.print line e) := by
  simp only [readOutput, bind_eq_ok_iff, pure_eq_ok_iff]
  constructor
  · rintro ⟨e, _, first, ⟨_, closed⟩, _, second, rfl, rfl⟩
    obtain ⟨rfl, rfl⟩ := (expect_eq_ok_iff (by simp)).mp second
    obtain ⟨row, rfl, derived⟩ := expression_closing_iff.mp first
    exact ⟨row, e, closed, (TokenStream.prepend_append _ _ _).symm, derived, rfl⟩
  · rintro ⟨row, e, closed, rfl, derived, rfl⟩
    refine ⟨e, s'.prepend [⟨.closing .output, closed⟩], ?_, ⟨.closing .output, closed⟩, s', ?_,
      rfl, rfl⟩
    · exact expression_closing_iff.mpr ⟨row, TokenStream.prepend_append _ _ _, derived⟩
    · exact (expect_eq_ok_iff (by simp)).mpr ⟨rfl, rfl⟩

theorem openChoice_eq_ok_iff :
    draft.openChoice line s = .ok draft' s' ↔
      ∃ row closed e, s = s'.prepend (row ++ [⟨.closing .block, closed⟩]) ∧
        Expression (kinds row) e ∧ draft' = draft.within (.thenBody line e) s'.current.line := by
  simp only [openChoice, bind_eq_ok_iff, enter_eq_ok_iff]
  constructor
  · rintro ⟨e, _, first, _, _, second, rfl, rfl⟩
    obtain ⟨closed, rfl⟩ := endBlock_eq_ok_iff.mp second
    obtain ⟨row, rfl, derived⟩ := expression_closing_iff.mp first
    exact ⟨row, closed, e, (TokenStream.prepend_append _ _ _).symm, derived, rfl⟩
  · rintro ⟨row, closed, e, rfl, derived, rfl⟩
    refine ⟨e, s'.prepend [⟨.closing .block, closed⟩], ?_, (), s', ?_, rfl, rfl⟩
    · exact expression_closing_iff.mpr ⟨row, TokenStream.prepend_append _ _ _, derived⟩
    · exact endBlock_eq_ok_iff.mpr ⟨closed, rfl⟩

theorem openLoop_eq_ok_iff :
    draft.openLoop line s = .ok draft' s' ↔
      ∃ row closed ks binding e, s = s'.prepend (row ++ [⟨.closing .block, closed⟩]) ∧
        kinds row = .name binding :: .name "in" :: ks ∧ Expression ks e ∧
          draft' = draft.within (.loop line binding e) s'.current.line := by
  simp only [openLoop, bind_eq_ok_iff, enter_eq_ok_iff]
  constructor
  · rintro ⟨binding, _, first, ⟨_, keyword⟩, _, second, e, _, third, _, _, fourth, rfl, rfl⟩
    obtain ⟨closed, rfl⟩ := endBlock_eq_ok_iff.mp fourth
    obtain ⟨row, rfl, derived⟩ := expression_closing_iff.mp third
    obtain ⟨rfl, rfl⟩ := expectKeyword_eq_ok_iff.mp second
    obtain ⟨named, rfl⟩ := expectName_eq_ok_iff.mp first
    refine ⟨⟨.name binding, named⟩ :: ⟨.name "in", keyword⟩ :: row, closed, kinds row, binding, e,
      ?_, rfl, derived, rfl⟩
    simp [TokenStream.prepend]
  · rintro ⟨row, closed, _, binding, e, rfl, spelled, derived, rfl⟩
    obtain ⟨⟨_, named⟩, row, rfl, rfl, behind⟩ := List.map_eq_cons_iff.mp spelled
    obtain ⟨⟨_, keyword⟩, row, rfl, rfl, rfl⟩ := List.map_eq_cons_iff.mp behind
    refine ⟨binding, s'.prepend (⟨.name "in", keyword⟩ :: row ++ [⟨.closing .block, closed⟩]), ?_,
      ⟨.name "in", keyword⟩, s'.prepend (row ++ [⟨.closing .block, closed⟩]), ?_,
      e, s'.prepend [⟨.closing .block, closed⟩], ?_, (), s', ?_, rfl, rfl⟩
    · exact expectName_eq_ok_iff.mpr ⟨named, rfl⟩
    · exact expectKeyword_eq_ok_iff.mpr ⟨rfl, rfl⟩
    · exact expression_closing_iff.mpr ⟨row, TokenStream.prepend_append _ _ _, derived⟩
    · exact endBlock_eq_ok_iff.mpr ⟨closed, rfl⟩

theorem openDefinition_eq_ok_iff :
    draft.openDefinition line s = .ok draft' s' ↔
      ∃ row closed name arguments, s = s'.prepend (row ++ [⟨.closing .block, closed⟩]) ∧
        kinds row = .name name :: .symbol .openParen :: nameRow arguments ++
          [.symbol .closeParen] ∧
        draft' = draft.within (.definition line name arguments) s'.current.line := by
  rw [openDefinition, bind_eq_ok_iff]
  constructor
  · rintro ⟨name, _, first, behind⟩
    obtain ⟨⟨_, opened⟩, _, second, behind⟩ := bind_eq_ok_iff.mp behind
    obtain ⟨arguments, _, third, behind⟩ := bind_eq_ok_iff.mp behind
    obtain ⟨⟨_, ended⟩, _, fourth, behind⟩ := bind_eq_ok_iff.mp behind
    obtain ⟨_, _, fifth, last⟩ := bind_eq_ok_iff.mp behind
    obtain ⟨rfl, rfl⟩ := enter_eq_ok_iff.mp last
    obtain ⟨closed, rfl⟩ := endBlock_eq_ok_iff.mp fifth
    obtain ⟨rfl, rfl⟩ := (expect_eq_ok_iff (by simp)).mp fourth
    obtain ⟨row, rfl, spelled, -⟩ := collect_names_eq_ok_iff.mp third
    obtain ⟨rfl, rfl⟩ := (expect_eq_ok_iff (by simp)).mp second
    obtain ⟨named, rfl⟩ := expectName_eq_ok_iff.mp first
    refine ⟨⟨.name name, named⟩ :: ⟨.symbol .openParen, opened⟩ :: row ++
      [⟨.symbol .closeParen, ended⟩], closed, name, arguments, ?_, ?_, rfl⟩
    · simp [TokenStream.prepend]
    · simp [spelled]
  · rintro ⟨row, closed, name, arguments, rfl, spelled, rfl⟩
    obtain ⟨⟨_, named⟩, row, rfl, rfl, behind⟩ := List.map_eq_cons_iff.mp spelled
    obtain ⟨⟨_, opened⟩, row, rfl, rfl, inside⟩ := List.map_eq_cons_iff.mp behind
    obtain ⟨row, ending, rfl, names, ends⟩ := List.map_eq_append_iff.mp inside
    -- the row ends with the parenthesis behind the arguments
    obtain ⟨⟨_, ended⟩, _, rfl, rfl, nothing⟩ := List.map_eq_cons_iff.mp ends
    cases List.map_eq_nil_iff.mp nothing
    -- from here on each part is read with what follows it in front of the rest
    let closer : Token := ⟨.closing .block, closed⟩
    let paren : Token := ⟨.symbol .closeParen, ended⟩
    refine ⟨name, s'.prepend (⟨.symbol .openParen, opened⟩ :: row ++ [paren, closer]), ?_, ?_⟩
    · exact expectName_eq_ok_iff.mpr ⟨named, by simp [TokenStream.prepend, paren, closer]⟩
    refine bind_eq_ok_iff.mpr ⟨⟨.symbol .openParen, opened⟩, s'.prepend (row ++ [paren, closer]),
      (expect_eq_ok_iff (by simp)).mpr ⟨rfl, rfl⟩, ?_⟩
    refine bind_eq_ok_iff.mpr ⟨arguments, s'.prepend [paren, closer], ?_, ?_⟩
    · exact collect_names_eq_ok_iff.mpr ⟨row, TokenStream.prepend_append _ _ _, names, rfl⟩
    refine bind_eq_ok_iff.mpr ⟨paren, s'.prepend [closer],
      (expect_eq_ok_iff (by simp)).mpr ⟨rfl, rfl⟩, ?_⟩
    refine bind_eq_ok_iff.mpr ⟨(), s', endBlock_eq_ok_iff.mpr ⟨closed, rfl⟩, ?_⟩
    exact enter_eq_ok_iff.mpr ⟨rfl, rfl⟩

theorem openDirective_eq_ok_iff {name : Token} {directive : Directive} :
    draft.openDirective name directive s = .ok draft' s' ↔
      ∃ row closed parameters, s = s'.prepend (row ++ [⟨.closing .block, closed⟩]) ∧
        directive.Parameters name row parameters ∧
          draft' = if directive.hasBody then
              draft.within (.directive name.line directive parameters) s'.current.line
            else draft.push (directive.node name.line parameters none) := by
  simp only [openDirective, bind_eq_ok_iff, orLine_eq_ok_iff, readParameters_eq_ok_iff]
  constructor
  · rintro ⟨parameters, _, ⟨row, closed, rfl, bound⟩, last⟩
    split at last
    · next body =>
      obtain ⟨rfl, rfl⟩ := enter_eq_ok_iff.mp last
      exact ⟨row, closed, parameters, rfl, bound, by simp [body]⟩
    · next none =>
      obtain ⟨rfl, rfl⟩ := pure_eq_ok_iff.mp last
      exact ⟨row, closed, parameters, rfl, bound, by simp [none]⟩
  · rintro ⟨row, closed, parameters, rfl, bound, rfl⟩
    refine ⟨parameters, s', ⟨row, closed, rfl, bound⟩, ?_⟩
    split
    · exact enter_eq_ok_iff.mpr ⟨rfl, rfl⟩
    · exact pure_eq_ok_iff.mpr ⟨rfl, rfl⟩

/-! ## Constructs -/

/-- The tokens of a block tag: its opener, its name, what follows the name, and its closer. -/
def blockTag (opened line : Nat) (name : String) (row : List Token) (closed : Nat) : List Token :=
  ⟨.opening .block, opened⟩ :: ⟨.name name, line⟩ :: row ++ [⟨.closing .block, closed⟩]

/-- Whether a block tag with this name, on this line, ends the innermost body, or else the
reading. -/
def EndsAt (draft : Draft) (bound : Bound) (line : Nat) (name : String) : Prop :=
  match draft.enclosing with
  | [] => bound.stopsAt ⟨.name name, line⟩
  | (tag, _) :: _ => name ∈ tag.ends

/-- A construct with which the reading of a draft goes on, if the token behind it is on the line
`next`: its tokens and the draft that comes of it. -/
inductive Takes (dialect : Dialect) (bound : Bound) (draft : Draft) (next : Nat) :
    List Token → Draft → Prop
  | text (value : String) (line : Nat) :
      Takes dialect bound draft next [⟨.text value, line⟩] (draft.push (.text line value))
  | output {row : List Token} {e : Expr} (line closed : Nat) : Expression (kinds row) e →
      Takes dialect bound draft next
        (⟨.opening .output, line⟩ :: row ++ [⟨.closing .output, closed⟩])
        (draft.push (.print line e))
  | opening {row : List Token} {name : String} {line : Nat} {tag : OpenTag}
      (opened closed : Nat) : ¬ draft.EndsAt bound line name → Opening dialect line name row tag →
      Takes dialect bound draft next (blockTag opened line name row closed)
        (draft.within tag next)
  | lone {row : List Token} {name : String} {directive : Directive}
      {parameters : OrderedMap Expr} (opened line closed : Nat) : ¬ draft.EndsAt bound line name →
      name ∉ ["if", "for", "macro"] → dialect.find? name = some directive →
      ¬ directive.hasBody → directive.Parameters ⟨.name name, line⟩ row parameters →
      Takes dialect bound draft next (blockTag opened line name row closed)
        (draft.push (directive.node line parameters none))
  | alternative {condition : Expr} {outer : Body} {enclosing : List (OpenTag × Body)}
      {start : Nat} (opened line closed : Nat) :
      draft.enclosing = (.thenBody start condition, outer) :: enclosing →
      Takes dialect bound draft next (blockTag opened line "else" [] closed)
        (within ⟨outer, enclosing⟩ (.elseBody start condition draft.body.node) next)
  | close {tag : OpenTag} {outer : Body} {enclosing : List (OpenTag × Body)} {name : String}
      (opened line closed : Nat) : draft.enclosing = (tag, outer) :: enclosing →
      name ∈ tag.ends → name ≠ "else" →
      Takes dialect bound draft next (blockTag opened line name [] closed)
        ⟨outer.push (tag.node draft.body.node), enclosing⟩

variable {dialect : Dialect} {bound : Bound} {name : String}

/-- What holds of the directives of the block tags that are taken holds of those of all open tags if
it did before. -/
theorem Takes.covered {P : Directive → Prop} {next : Nat} {taken : List Token}
    (takes : draft.Takes dialect bound next taken draft') (covered : draft.Covered P)
    (each : ∀ {opened line name row closed d}, taken = blockTag opened line name row closed →
      name ∉ ["if", "for", "macro"] → dialect.find? name = some d → P d) : draft'.Covered P := by
  cases takes with
  | text | output | lone => exact covered
  | opening _ _ _ opening =>
      refine List.forall_mem_cons.mpr ⟨?_, covered⟩
      cases opening with
      | directive foreign found => exact each rfl foreign found
      | _ => trivial
  | alternative _ _ _ around =>
      rw [Covered, around] at covered
      exact List.forall_mem_cons.mpr ⟨trivial, (List.forall_mem_cons.mp covered).2⟩
  | close _ _ _ around =>
      rw [Covered, around] at covered
      exact (List.forall_mem_cons.mp covered).2

/-- A tag stops the reading outside of all tags, or ends the body of the innermost one. -/
theorem EndsAt.outside_or_within (h : draft.EndsAt bound line name) :
    (draft.enclosing = [] ∧ bound.stopsAt ⟨.name name, line⟩ = true) ∨
      ∃ tag outer enclosing, draft.enclosing = (tag, outer) :: enclosing ∧ name ∈ tag.ends := by
  unfold EndsAt at h
  split at h
  · next around => exact .inl ⟨around, h⟩
  · next tag outer enclosing around => exact .inr ⟨tag, outer, enclosing, around, h⟩

/-- In a whole template it does the latter. -/
theorem EndsAt.within_of_atEnd (h : draft.EndsAt .atEnd line name) :
    ∃ tag outer enclosing, draft.enclosing = (tag, outer) :: enclosing ∧ name ∈ tag.ends := by
  rcases h.outside_or_within with ⟨-, stops⟩ | within
  · cases stops
  · exact within

/-- What comes of a draft through a tag that ends nothing. -/
theorem openTag_eq_ok_iff :
    draft.openTag dialect line name s = .ok draft' s' ↔
      ∃ row closed, s = s'.prepend (row ++ [⟨.closing .block, closed⟩]) ∧
        ((∃ tag, Opening dialect line name row tag ∧
            draft' = draft.within tag s'.current.line) ∨
          ∃ directive parameters, name ∉ ["if", "for", "macro"] ∧
            dialect.find? name = some directive ∧ ¬ directive.hasBody ∧
            directive.Parameters ⟨.name name, line⟩ row parameters ∧
            draft' = draft.push (directive.node line parameters none)) := by
  constructor
  · intro h
    simp only [openTag] at h
    split at h
    · next isIf =>
      subst isIf
      obtain ⟨row, closed, e, rfl, derived, rfl⟩ := openChoice_eq_ok_iff.mp h
      exact ⟨row, closed, rfl, .inl ⟨_, .choice derived, rfl⟩⟩
    split at h
    · next isFor =>
      subst isFor
      obtain ⟨row, closed, _, _, e, rfl, spelled, derived, rfl⟩ := openLoop_eq_ok_iff.mp h
      exact ⟨row, closed, rfl, .inl ⟨_, .loop spelled derived, rfl⟩⟩
    split at h
    · next isMacro =>
      subst isMacro
      obtain ⟨row, closed, _, _, rfl, spelled, rfl⟩ := openDefinition_eq_ok_iff.mp h
      exact ⟨row, closed, rfl, .inl ⟨_, .definition spelled, rfl⟩⟩
    -- the tag is none of the template language, so the dialect has to know it
    next notIf notFor notMacro =>
    have foreign : name ∉ ["if", "for", "macro"] := by simp [notIf, notFor, notMacro]
    cases found : dialect.find? name with
    | none =>
        simp only [found] at h
        cases h
    | some directive =>
        simp only [found] at h
        obtain ⟨row, closed, parameters, rfl, bound, rfl⟩ := openDirective_eq_ok_iff.mp h
        refine ⟨row, closed, rfl, ?_⟩
        by_cases body : directive.hasBody = true
        · exact .inl ⟨_, .directive foreign found body bound, by simp [body]⟩
        · exact .inr ⟨directive, parameters, foreign, rfl, body, bound, by simp [body]⟩
  · rintro ⟨row, closed, rfl, ⟨tag, opening, rfl⟩ | ⟨d, parameters, foreign, found, noBody, bound,
      rfl⟩⟩
    · cases opening with
      | choice derived =>
          exact openChoice_eq_ok_iff.mpr ⟨row, closed, _, rfl, derived, rfl⟩
      | loop spelled derived =>
          exact openLoop_eq_ok_iff.mpr ⟨row, closed, _, _, _, rfl, spelled, derived, rfl⟩
      | definition spelled =>
          exact openDefinition_eq_ok_iff.mpr ⟨row, closed, _, _, rfl, spelled, rfl⟩
      | directive foreign found body bound =>
          simp only [List.mem_cons, List.not_mem_nil, or_false, not_or] at foreign
          simp only [openTag, foreign, if_false, found]
          exact openDirective_eq_ok_iff.mpr ⟨row, closed, _, rfl, bound, by simp [body]⟩
    · simp only [List.mem_cons, List.not_mem_nil, or_false, not_or] at foreign
      simp only [openTag, foreign, if_false, found]
      exact openDirective_eq_ok_iff.mpr ⟨row, closed, _, rfl, bound, by simp [noBody]⟩

/-- What comes of a draft through a tag that ends its innermost body. -/
theorem closeTag_eq_ok_iff {tag : OpenTag} {outer : Body} {enclosing : List (OpenTag × Body)}
    (ends : name ∈ tag.ends) :
    draft.closeTag tag outer enclosing name s = .ok draft' s' ↔
      ∃ closed, s = s'.prepend [⟨.closing .block, closed⟩] ∧
        ((∃ start condition, tag = .thenBody start condition ∧ name = "else" ∧
            draft' = within ⟨outer, enclosing⟩ (.elseBody start condition draft.body.node)
              s'.current.line) ∨
          name ≠ "else" ∧ draft' = ⟨outer.push (tag.node draft.body.node), enclosing⟩) := by
  simp only [closeTag, bind_eq_ok_iff, endBlock_eq_ok_iff]
  constructor
  · rintro ⟨_, _, ⟨closed, rfl⟩, last⟩
    refine ⟨closed, ?_⟩
    by_cases other : name = "else"
    · subst other
      cases tag with
      | thenBody start condition =>
          obtain ⟨rfl, rfl⟩ := enter_eq_ok_iff.mp last
          exact ⟨rfl, .inl ⟨start, condition, rfl, rfl, rfl⟩⟩
      -- a directive has no tag but its own that ends it
      | directive line d parameters => exact absurd ends d.else_ne_endTag
      | _ => simp [OpenTag.ends] at ends
    · simp only [other, decide_false] at last
      obtain ⟨rfl, rfl⟩ := pure_eq_ok_iff.mp last
      exact ⟨rfl, .inr ⟨other, rfl⟩⟩
  · rintro ⟨closed, rfl, ⟨start, condition, rfl, rfl, rfl⟩ | ⟨other, rfl⟩⟩
    · exact ⟨(), s', ⟨closed, rfl⟩, enter_eq_ok_iff.mpr ⟨rfl, rfl⟩⟩
    · refine ⟨(), s', ⟨closed, rfl⟩, ?_⟩
      simp only [other, decide_false]
      exact pure_eq_ok_iff.mpr ⟨rfl, rfl⟩

/-! ## Steps -/

theorem step_of_text {value : String} (kind : s.current.kind = .text value) :
    draft.step dialect bound s =
      .ok (.inl (draft.push (.text s.current.line value))) s.advance := by
  simp only [step, kind]
  rfl

theorem step_of_output (kind : s.current.kind = .opening .output) :
    draft.step dialect bound s =
      (Sum.inl <$> draft.readOutput s.current.line : Reading (Draft ⊕ Node)) s.advance := by
  simp only [step, kind]
  rfl

theorem step_of_block (kind : s.current.kind = .opening .block) :
    draft.step dialect bound s = draft.readBlock dialect bound s.advance := by
  simp only [step, kind]
  rfl

section Steps

variable (row : List Token)

theorem step_text (value : String) :
    draft.step dialect bound (s.prepend (⟨.text value, line⟩ :: row)) =
      .ok (.inl (draft.push (.text line value))) (s.prepend row) := rfl

theorem step_output :
    draft.step dialect bound (s.prepend (⟨.opening .output, line⟩ :: row)) =
      (Sum.inl <$> draft.readOutput line : Reading (Draft ⊕ Node)) (s.prepend row) := rfl

theorem step_block :
    draft.step dialect bound (s.prepend (⟨.opening .block, line⟩ :: row)) =
      draft.readBlock dialect bound (s.prepend row) := rfl

/-- A tag that ends nothing is opened. -/
theorem readBlock_of_not_endsAt (passes : ¬ draft.EndsAt bound line name) :
    draft.readBlock dialect bound (s.prepend (⟨.name name, line⟩ :: row)) =
      (Sum.inl <$> draft.openTag dialect line name : Reading (Draft ⊕ Node)) (s.prepend row) := by
  obtain ⟨body, enclosing⟩ := draft
  cases enclosing with
  | nil =>
      have passes : bound.stopsAt ⟨.name name, line⟩ ≠ true := passes
      simp only [readBlock, bind, EStateM.bind, current, TokenStream.current_prepend_cons, passes]
      rfl
  | cons first enclosing =>
      have passes : ¬ name ∈ first.1.ends := passes
      simp only [readBlock, bind, EStateM.bind, current, TokenStream.current_prepend_cons, next,
        List.contains_iff_mem, passes]
      rfl

/-- A tag that ends the innermost body is closed. -/
theorem readBlock_of_mem_ends {tag : OpenTag} {outer : Body} {enclosing : List (OpenTag × Body)}
    (around : draft.enclosing = (tag, outer) :: enclosing) (ends : name ∈ tag.ends) :
    draft.readBlock dialect bound (s.prepend (⟨.name name, line⟩ :: row)) =
      (Sum.inl <$> draft.closeTag tag outer enclosing name : Reading (Draft ⊕ Node))
        (s.prepend row) := by
  simp only [readBlock, bind, EStateM.bind, current, TokenStream.current_prepend_cons, next,
    around, List.contains_iff_mem, ends]
  rfl

/-- A tag that the reading stops at ends it, in front of the name or behind it. -/
theorem readBlock_of_stops (around : draft.enclosing = [])
    (stops : bound.stopsAt ⟨.name name, line⟩ = true) :
    draft.readBlock dialect bound (s.prepend (⟨.name name, line⟩ :: row)) =
      .ok (.inr draft.body.node)
        (if bound.takesName then s.prepend row
          else s.prepend (⟨.name name, line⟩ :: row)) := by
  simp only [readBlock, bind, EStateM.bind, current, TokenStream.current_prepend_cons, around,
    stops]
  cases bound.takesName <;> rfl

end Steps

/-- A block tag behind its opener either is a construct with which the draft goes on, or stops the
reading. -/
theorem readBlock_eq_inl (opened : Nat)
    (h : draft.readBlock dialect bound s = .ok (.inl draft') s') :
    ∃ taken, s = s'.prepend taken ∧
      draft.Takes dialect bound s'.current.line (⟨.opening .block, opened⟩ :: taken) draft' := by
  cases kind : s.current.kind with
  | name name =>
      obtain ⟨line, t, rfl⟩ := TokenStream.exists_eq_prepend kind nofun
      by_cases ends : draft.EndsAt bound line name
      · rcases ends.outside_or_within with
          ⟨around, stops⟩ | ⟨tag, outer, enclosing, around, inEnds⟩
        -- outside of all tags the bound stops the reading, so it does not go on
        · rw [readBlock_of_stops [] around stops] at h
          cases h
        · rw [readBlock_of_mem_ends [] around inEnds, map_eq_ok_iff] at h
          obtain ⟨_, closing, eq⟩ := h
          cases eq
          obtain ⟨closed, rest, way⟩ := (closeTag_eq_ok_iff inEnds).mp closing
          obtain rfl : t = _ := rest
          refine ⟨[⟨.name name, line⟩, ⟨.closing .block, closed⟩], rfl, ?_⟩
          rcases way with ⟨start, condition, rfl, rfl, rfl⟩ | ⟨other, rfl⟩
          · exact .alternative opened line closed around
          · exact .close opened line closed around inEnds other
      · rw [readBlock_of_not_endsAt [] ends, map_eq_ok_iff] at h
        obtain ⟨_, reading, eq⟩ := h
        cases eq
        obtain ⟨row, closed, rest, way⟩ := openTag_eq_ok_iff.mp reading
        obtain rfl : t = _ := rest
        refine ⟨⟨.name name, line⟩ :: row ++ [⟨.closing .block, closed⟩], rfl, ?_⟩
        rcases way with ⟨tag, opening, rfl⟩ | ⟨d, parameters, foreign, found, noBody, bound, rfl⟩
        · exact .opening opened closed ends opening
        · exact .lone opened line closed ends foreign found noBody bound
  | _ =>
      simp only [readBlock, bind, EStateM.bind, current, kind] at h
      cases h

/-- A step that goes on has read one construct. -/
theorem takes_of_step (h : draft.step dialect bound s = .ok (.inl draft') s') :
    ∃ taken, s = s'.prepend taken ∧ draft.Takes dialect bound s'.current.line taken draft' := by
  cases kind : s.current.kind with
  | text value =>
      obtain ⟨line, t, rfl⟩ := TokenStream.exists_eq_prepend kind nofun
      rw [step_text] at h
      cases h
      exact ⟨[⟨.text value, line⟩], rfl, .text value line⟩
  | opening form =>
      obtain ⟨line, t, rfl⟩ := TokenStream.exists_eq_prepend kind nofun
      cases form with
      | output =>
          rw [step_output, map_eq_ok_iff] at h
          obtain ⟨_, reading, eq⟩ := h
          cases eq
          obtain ⟨row, e, closed, rest, derived, rfl⟩ := readOutput_eq_ok_iff.mp reading
          obtain rfl : t = _ := rest
          exact ⟨⟨.opening .output, line⟩ :: row ++ [⟨.closing .output, closed⟩], rfl,
            .output line closed derived⟩
      | block =>
          rw [step_block] at h
          obtain ⟨taken, rest, takes⟩ := readBlock_eq_inl line h
          obtain rfl : t = _ := rest
          exact ⟨⟨.opening .block, line⟩ :: taken, rfl, takes⟩
  | eof =>
      simp only [step, kind] at h
      split at h <;> cases h
  | _ =>
      simp only [step, kind] at h
      cases h

/-- Every construct is read by one step. -/
theorem step_of_takes {taken : List Token}
    (takes : draft.Takes dialect bound s.current.line taken draft') :
    draft.step dialect bound (s.prepend taken) = .ok (.inl draft') s := by
  cases takes with
  | text value line => exact step_text _ _
  | @output row e line closed derived =>
      rw [List.cons_append, step_output, map_eq_ok_iff]
      exact ⟨_, readOutput_eq_ok_iff.mpr ⟨row, e, closed, rfl, derived, rfl⟩, rfl⟩
  | @opening row name line tag opened closed passes opening =>
      rw [blockTag, List.cons_append, step_block, List.cons_append,
        readBlock_of_not_endsAt _ passes, map_eq_ok_iff]
      exact ⟨_, openTag_eq_ok_iff.mpr ⟨row, closed, rfl, .inl ⟨tag, opening, rfl⟩⟩, rfl⟩
  | @lone row name d parameters opened line closed passes foreign found noBody bound =>
      rw [blockTag, List.cons_append, step_block, List.cons_append,
        readBlock_of_not_endsAt _ passes, map_eq_ok_iff]
      exact ⟨_, openTag_eq_ok_iff.mpr ⟨row, closed, rfl,
        .inr ⟨d, parameters, foreign, found, noBody, bound, rfl⟩⟩, rfl⟩
  | @alternative condition outer enclosing start opened line closed around =>
      have ends : "else" ∈ (OpenTag.thenBody start condition).ends := by simp [OpenTag.ends]
      rw [blockTag, List.cons_append, step_block, List.cons_append,
        readBlock_of_mem_ends _ around ends, map_eq_ok_iff]
      exact ⟨_, (closeTag_eq_ok_iff ends).mpr
        ⟨closed, rfl, .inl ⟨start, condition, rfl, rfl, rfl⟩⟩, rfl⟩
  | @close tag outer enclosing name opened line closed around ends other =>
      rw [blockTag, List.cons_append, step_block, List.cons_append,
        readBlock_of_mem_ends _ around ends, map_eq_ok_iff]
      exact ⟨_, (closeTag_eq_ok_iff ends).mpr ⟨closed, rfl, .inr ⟨other, rfl⟩⟩, rfl⟩

theorem step_eq_inl_iff :
    draft.step dialect bound s = .ok (.inl draft') s' ↔
      ∃ taken, s = s'.prepend taken ∧ draft.Takes dialect bound s'.current.line taken draft' := by
  constructor
  · exact takes_of_step
  · rintro ⟨taken, rfl, takes⟩
    exact step_of_takes takes

/-- No block tag ends the reading of a whole template. -/
theorem readBlock_atEnd_ne_inr {node : Node} :
    draft.readBlock dialect .atEnd s ≠ .ok (.inr node) s' := by
  intro h
  cases kind : s.current.kind with
  | name name =>
      obtain ⟨line, t, rfl⟩ := TokenStream.exists_eq_prepend kind nofun
      by_cases ends : draft.EndsAt .atEnd line name
      · obtain ⟨tag, outer, enclosing, around, inEnds⟩ := ends.within_of_atEnd
        rw [readBlock_of_mem_ends [] around inEnds, map_eq_ok_iff] at h
        obtain ⟨_, -, eq⟩ := h
        cases eq
      · rw [readBlock_of_not_endsAt [] ends, map_eq_ok_iff] at h
        obtain ⟨_, -, eq⟩ := h
        cases eq
  | _ =>
      simp only [readBlock, bind, EStateM.bind, current, kind] at h
      cases h

/-- The reading of a whole template ends where the template does, outside of all tags. -/
theorem step_atEnd_eq_inr_iff {node : Node} :
    draft.step dialect .atEnd s = .ok (.inr node) s' ↔
      s.current.kind = .eof ∧ draft.enclosing = [] ∧ node = draft.body.node ∧ s' = s := by
  constructor
  · intro h
    cases kind : s.current.kind with
    | eof =>
        simp only [step, kind] at h
        split at h
        · next whole =>
          cases h
          exact ⟨rfl, List.isEmpty_iff.mp whole.1, rfl, rfl⟩
        · cases h
    | opening form =>
        cases form with
        | output =>
            rw [step_of_output kind, map_eq_ok_iff] at h
            obtain ⟨_, -, eq⟩ := h
            cases eq
        | block =>
            rw [step_of_block kind] at h
            exact absurd h readBlock_atEnd_ne_inr
    | _ =>
        simp only [step, kind] at h
        cases h
  · rintro ⟨kind, around, rfl, rfl⟩
    simp [step, kind, around]

/-! ## Runs -/

/-- Reading is one step, and more of them while there is a draft to go on with. -/
theorem read_eq (draft : Draft) (dialect : Dialect) (bound : Bound) (s : TokenStream) :
    draft.read dialect bound s =
      match draft.step dialect bound s with
      | .error report s' => .error report s'
      | .ok (.inr node) s' => .ok node s'
      | .ok (.inl draft') s' => draft'.read dialect bound s' := by
  rw [read]
  split <;> simp only [*]

/-- Reading goes on behind a construct with the draft that comes of it. -/
theorem read_prepend {taken : List Token}
    (takes : draft.Takes dialect bound s.current.line taken draft') :
    draft.read dialect bound (s.prepend taken) = draft'.read dialect bound s := by
  rw [read_eq, step_of_takes takes]

/-- The constructs of a template up to its end, and the node that comes of them. -/
inductive Reads (dialect : Dialect) : Draft → TokenStream → Node → Prop
  | done {draft : Draft} {s : TokenStream} : s.current.kind = .eof → draft.enclosing = [] →
      Reads dialect draft s draft.body.node
  | more {draft draft' : Draft} {s : TokenStream} {taken : List Token} {node : Node} :
      draft.Takes dialect .atEnd s.current.line taken draft' → Reads dialect draft' s node →
      Reads dialect draft (s.prepend taken) node

/-- A template is read if and only if it consists of constructs up to its end. -/
theorem exists_read_eq_ok_iff {node : Node} :
    (∃ s', draft.read dialect .atEnd s = .ok node s') ↔ Reads dialect draft s node := by
  constructor
  · rintro ⟨s', h⟩
    induction draft, s using Draft.read.induct dialect .atEnd with
    | case1 draft s _ _ failed =>
        rw [read_eq, failed] at h
        cases h
    | case2 draft s _ _ ended =>
        rw [read_eq, ended] at h
        cases h
        obtain ⟨kind, around, rfl, -⟩ := step_atEnd_eq_inr_iff.mp ended
        exact .done kind around
    | case3 draft s draft' t went ih =>
        obtain ⟨taken, rfl, takes⟩ := step_eq_inl_iff.mp went
        rw [read_prepend takes] at h
        exact .more takes (ih h)
  · intro h
    induction h with
    | @done draft s kind around =>
        have step : draft.step dialect .atEnd s = .ok (.inr draft.body.node) s :=
          step_atEnd_eq_inr_iff.mpr ⟨kind, around, rfl, rfl⟩
        exact ⟨s, by rw [read_eq, step]⟩
    | more takes _ ih => rwa [read_prepend takes]

/-- The draft of a template of which nothing has been read, which starts on a line. -/
def start (line : Nat) : Draft := ⟨⟨line, []⟩, []⟩

end Draft

/-- A source is the source of a template if and only if its tokens are constructs up to the end. -/
theorem readTemplate_eq_ok_iff {dialect : Dialect} {file source : String} {template : Template} :
    dialect.readTemplate file source = .ok template ↔
      template.file = file ∧ ∃ tokens, tokenize source = .ok tokens ∧
        Draft.Reads dialect (.start (TokenStream.ofList tokens).current.line) (.ofList tokens)
          template.body := by
  simp only [Dialect.readTemplate]
  cases tokenized : tokenize source with
  | error => simp
  | ok tokens =>
      have body : dialect.readBody .atEnd (.ofList tokens) =
          (Draft.start (TokenStream.ofList tokens).current.line).read dialect .atEnd
            (.ofList tokens) := rfl
      simp only [body, ← Draft.exists_read_eq_ok_iff, Except.ok.injEq]
      constructor
      · intro h
        split at h
        · next s read =>
          cases h
          exact ⟨rfl, tokens, rfl, s, read⟩
        · cases h
      · rintro ⟨rfl, _, rfl, s, read⟩
        simp only [read]

/-- A template is not read if its source has no tokens or if they cannot be read. -/
theorem readTemplate_eq_error_iff {dialect : Dialect} {file source : String} {report : Report} :
    dialect.readTemplate file source = .error report ↔
      ∃ raised : Report, report = raised.orFile file ∧
        (tokenize source = .error raised ∨ ∃ tokens s, tokenize source = .ok tokens ∧
          dialect.readBody .atEnd (.ofList tokens) = .error raised s) := by
  simp only [Dialect.readTemplate]
  cases tokenized : tokenize source with
  | error raised => simp [eq_comm]
  | ok tokens =>
      cases read : dialect.readBody .atEnd (.ofList tokens) with
      | ok node s => simp [read]
      | error raised s => simp [read, eq_comm]

end SheetMarkup
