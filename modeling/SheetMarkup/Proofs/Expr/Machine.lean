import SheetMarkup.Proofs.Expr.Grammar

/-!
# The reader of expressions and the grammar

The reader is a pushdown machine. A row of tokens takes it from its start to a state with a complete
expression and nothing open around it exactly if the grammar derives the expression from the row
(`accepts_start_iff`). From the grammar to the machine the proof goes by induction on derivations,
for every stack below. Back from the machine it goes by an invariant of states, `Spelled`: the
tokens read so far are what the state holds, spelled out from the bottom of the stack to its top.
-/

namespace SheetMarkup.Expr.Reader

open Grammar
open Token (Kind)

/-- Takes tokens one after another. -/
def steps (state : State) (ks : List Kind) : Option State := ks.foldlM step state

/-- A row of tokens leads to a complete expression with nothing open. -/
def Accepts (state : State) (ks : List Kind) (e : Expr) : Prop :=
  ∃ state', steps state ks = some state' ∧ state'.value? = some e

theorem steps_nil (state : State) : steps state [] = some state := rfl

theorem steps_cons (state : State) (k : Kind) (ks : List Kind) :
    steps state (k :: ks) = (step state k).bind fun next => steps next ks := rfl

theorem steps_append (state : State) (ks ks' : List Kind) :
    steps state (ks ++ ks') = (steps state ks).bind fun next => steps next ks' :=
  List.foldlM_append

theorem steps_append_of {state next : State} {ks : List Kind} (h : steps state ks = some next)
    (ks' : List Kind) : steps state (ks ++ ks') = steps next ks' := by
  rw [steps_append, h, Option.bind_some]

/-! ## From the grammar to the machine -/

section Completeness

/-- Where an item may begin, the machine goes on as where an operand must begin. -/
theorem steps_item {items : List Expr} {waiting : Waiting} {stack : Stack} {ks : List Kind}
    {state : State} (ne : ks ≠ [])
    (h : steps (.operand none ((.item items, waiting) :: stack)) ks = some state) :
    steps (.item items waiting stack) ks = some state := by
  cases ks with
  | nil => exact absurd rfl ne
  | cons k ks =>
      rw [steps_cons] at h ⊢
      cases k with
      | symbol mark =>
          cases mark with
          | closeBracket => cases h
          | _ => exact h
      | _ => exact h

/-- A complete operand ends an expression at every token that neither extends it nor compares it. -/
theorem step_complete {operand : Expr} {extensible : Bool} {waiting : Waiting} {stack : Stack}
    {mark : Symbol} (h : mark ∈ [.comma, .closeBracket, .closeBrace, .closeParen]) :
    step (.complete operand extensible waiting stack) (.symbol mark) =
      endExpression (waiting.close operand) stack (.symbol mark) := by
  simp only [List.mem_cons, List.not_mem_nil, or_false] at h
  rcases h with rfl | rfl | rfl | rfl <;> cases extensible <;> rfl

theorem step_operand (waiting : Waiting) (stack : Stack) (k : Kind) :
    step (.operand waiting stack) k = beginOperand waiting stack k := rfl

/-- A word begins an operand: the literal that it is, or else a name. -/
theorem beginOperand_word (waiting : Waiting) (stack : Stack) (word : String) :
    beginOperand waiting stack (.name word) =
      (constant? word).elim (some (.complete (.name word) true waiting stack)) fun e =>
        some (.complete e false waiting stack) := by
  unfold beginOperand
  dsimp only
  cases constant? word <;> rfl

theorem beginOperand_constant {word : String} {e : Expr} (h : (word, e) ∈ constants)
    (waiting : Waiting) (stack : Stack) :
    beginOperand waiting stack (.name word) = some (.complete e false waiting stack) := by
  rw [beginOperand_word, constant?_eq_some_iff.mpr h, Option.elim_some]

theorem beginOperand_name {word : String} (h : word ∉ constants.map Prod.fst) (waiting : Waiting)
    (stack : Stack) :
    beginOperand waiting stack (.name word) =
      some (.complete (.name word) true waiting stack) := by
  rw [beginOperand_word, constant?_eq_none_iff.mpr h, Option.elim_none]

theorem steps_openBracket (waiting : Waiting) (stack : Stack) (ks : List Kind) :
    steps (.operand waiting stack) (.symbol .openBracket :: ks) =
      steps (.item [] waiting stack) ks := rfl

theorem steps_openBrace (waiting : Waiting) (stack : Stack) (ks : List Kind) :
    steps (.operand waiting stack) (.symbol .openBrace :: ks) =
      steps (.key [] waiting stack) ks := rfl

theorem steps_openParen (waiting : Waiting) (stack : Stack) (ks : List Kind) :
    steps (.operand waiting stack) (.symbol .openParen :: ks) =
      steps (.operand none ((.group, waiting) :: stack)) ks := rfl

theorem step_comparison (operand : Expr) (extensible : Bool) (waiting : Waiting) (stack : Stack)
    (comparison : Comparison) :
    step (.complete operand extensible waiting stack) (.symbol comparison.symbol) =
      some (.operand (some (waiting.close operand, comparison)) stack) := by
  cases comparison <;> cases extensible <;> rfl

mutual

theorem steps_expression {ks : List Kind} {e : Expr} : Expression ks e → ∀ stack : Stack,
    ∃ operand extensible waiting, steps (.operand none stack) ks =
      some (.complete operand extensible waiting stack) ∧ waiting.close operand = e
  | .operand h, stack => by
      obtain ⟨extensible, hs⟩ := steps_operand h none stack
      exact ⟨e, extensible, none, hs, rfl⟩
  | .compare comparison left right, stack => by
      -- the left side is whole at the comparison and waits there for its right operand
      obtain ⟨operand, extensible, waiting, hs, closed⟩ := steps_expression left stack
      obtain ⟨extensible', hs'⟩ := steps_operand right (some (_, comparison)) stack
      refine ⟨_, extensible', some (_, comparison), ?_, rfl⟩
      rw [steps_append_of hs, steps_cons, step_comparison, Option.bind_some, closed]
      exact hs'

theorem steps_operand {ks : List Kind} {e : Expr} : Operand ks e → ∀ (waiting : Waiting)
    (stack : Stack), ∃ extensible, steps (.operand waiting stack) ks =
      some (.complete e extensible waiting stack)
  | .string _, _, _ => ⟨false, rfl⟩
  | .integer _, _, _ => ⟨false, rfl⟩
  | .real _, _, _ => ⟨false, rfl⟩
  | .constant h, waiting, stack => by
      refine ⟨false, ?_⟩
      rw [steps_cons, step_operand, beginOperand_constant h]
      rfl
  | .emptyList, _, _ => ⟨false, rfl⟩
  | @Operand.list _ _ items h trail, waiting, stack => by
      obtain ⟨init, last, operand, extensible, inner, hs, closed, split⟩ :=
        steps_items h waiting stack
      refine ⟨false, ?_⟩
      rw [List.append_assoc, List.cons_append, steps_openBracket, steps_append_of hs]
      -- the stack holds the items in reverse; the bracket adds the last one and turns them round
      have reversed : (last :: init.reverse).reverse = items := by simp [split]
      rcases trail with rfl | rfl
      · rw [List.nil_append, steps_cons, step_complete (by simp), closed]
        simp only [endExpression, Option.bind_some, reversed]
        rfl
      · rw [List.singleton_append, steps_cons, step_complete (by simp), closed]
        simp only [endExpression, Option.bind_some, steps_cons, step, reversed]
        rfl
  | .emptyHash, _, _ => ⟨false, rfl⟩
  | @Operand.hash _ _ pairs h trail, waiting, stack => by
      obtain ⟨init, key, value, operand, extensible, inner, hs, closed, split⟩ :=
        steps_pairs h waiting stack
      refine ⟨false, ?_⟩
      rw [List.append_assoc, List.cons_append, steps_openBrace, steps_append_of hs]
      have reversed : ((key, value) :: init.reverse).reverse = pairs := by simp [split]
      rcases trail with rfl | rfl
      · rw [List.nil_append, steps_cons, step_complete (by simp), closed]
        simp only [endExpression, Option.bind_some, reversed]
        rfl
      · rw [List.singleton_append, steps_cons, step_complete (by simp), closed]
        simp only [endExpression, Option.bind_some, steps_cons, step, reversed]
        rfl
  | .reference h, waiting, stack => ⟨true, steps_reference h waiting stack⟩

theorem steps_reference {ks : List Kind} {e : Expr} : Reference ks e → ∀ (waiting : Waiting)
    (stack : Stack), steps (.operand waiting stack) ks = some (.complete e true waiting stack)
  | .name h, waiting, stack => by
      rw [steps_cons, step_operand, beginOperand_name h]
      rfl
  | .group h, waiting, stack => by
      obtain ⟨operand, extensible, inner, hs, closed⟩ :=
        steps_expression h ((.group, waiting) :: stack)
      rw [List.cons_append, steps_openParen, steps_append_of hs, steps_cons,
        step_complete (by simp), closed]
      rfl
  | .attribute word h, waiting, stack => by
      rw [steps_append_of (steps_reference h waiting stack)]
      rfl
  | .index h hi, waiting, stack => by
      obtain ⟨operand, extensible, inner, hs, closed⟩ :=
        steps_expression hi ((.index _, waiting) :: stack)
      rw [List.append_assoc, steps_append_of (steps_reference h waiting stack),
        List.cons_append, steps_cons]
      simp only [step, Option.bind_some]
      rw [steps_append_of hs, steps_cons, step_complete (by simp), closed]
      rfl

theorem steps_items {ks : List Kind} {items : List Expr} : Items ks items →
    ∀ (waiting : Waiting) (stack : Stack), ∃ init last operand extensible inner,
      steps (.item [] waiting stack) ks = some (.complete operand extensible inner
        ((.item init.reverse, waiting) :: stack)) ∧ Waiting.close inner operand = last ∧
        items = init ++ [last]
  | .one h, waiting, stack => by
      obtain ⟨operand, extensible, inner, hs, closed⟩ :=
        steps_expression h ((.item [], waiting) :: stack)
      exact ⟨[], _, operand, extensible, inner, steps_item h.inner.1 hs, closed, rfl⟩
  | .more before h, waiting, stack => by
      obtain ⟨init, last, operand, extensible, inner, hs, closed, rfl⟩ :=
        steps_items before waiting stack
      -- the comma puts the last item to the others, and the next one begins as an operand does
      obtain ⟨operand', extensible', inner', hs', closed'⟩ :=
        steps_expression h ((.item (last :: init.reverse), waiting) :: stack)
      refine ⟨init ++ [last], _, operand', extensible', inner', ?_, closed', rfl⟩
      rw [steps_append_of hs, steps_cons, step_complete (by simp), closed]
      simp only [endExpression, Option.bind_some, List.reverse_append, List.reverse_singleton,
        List.singleton_append]
      exact steps_item h.inner.1 hs'

theorem steps_pairs {ks : List Kind} {pairs : List (Expr × Expr)} : Pairs ks pairs →
    ∀ (waiting : Waiting) (stack : Stack), ∃ init key value operand extensible inner,
      steps (.key [] waiting stack) ks = some (.complete operand extensible inner
        ((.value init.reverse key, waiting) :: stack)) ∧ Waiting.close inner operand = value ∧
        pairs = init ++ [(key, value)]
  | @Pairs.one _ pair h, waiting, stack => by
      obtain ⟨operand, extensible, inner, hs, closed⟩ := steps_pair h [] waiting stack
      exact ⟨[], pair.1, pair.2, operand, extensible, inner, hs, closed, rfl⟩
  | @Pairs.more _ _ _ pair before h, waiting, stack => by
      obtain ⟨init, key, value, operand, extensible, inner, hs, closed, rfl⟩ :=
        steps_pairs before waiting stack
      obtain ⟨operand', extensible', inner', hs', closed'⟩ :=
        steps_pair h ((key, value) :: init.reverse) waiting stack
      refine ⟨init ++ [(key, value)], pair.1, pair.2, operand', extensible', inner', ?_, closed',
        rfl⟩
      rw [steps_append_of hs, steps_cons, step_complete (by simp), closed]
      simp only [endExpression, Option.bind_some, List.reverse_append, List.reverse_singleton,
        List.singleton_append]
      exact hs'

theorem steps_pair {ks : List Kind} {pair : Expr × Expr} : Pair ks pair →
    ∀ (pairs : List (Expr × Expr)) (waiting : Waiting) (stack : Stack),
      ∃ operand extensible inner, steps (.key pairs waiting stack) ks =
        some (.complete operand extensible inner ((.value pairs pair.1, waiting) :: stack)) ∧
        Waiting.close inner operand = pair.2
  | @Pair.mk _ _ key _ hk hv, pairs, waiting, stack => by
      obtain ⟨operand, extensible, inner, hs, closed⟩ :=
        steps_expression hv ((.value pairs key, waiting) :: stack)
      refine ⟨operand, extensible, inner, ?_, closed⟩
      rw [steps_append_of (steps_key hk pairs waiting stack), steps_cons]
      exact hs

theorem steps_key {ks : List Kind} {key : Expr} : Key ks key →
    ∀ (pairs : List (Expr × Expr)) (waiting : Waiting) (stack : Stack),
      steps (.key pairs waiting stack) ks = some (.colon pairs key waiting stack)
  | .name _, _, _, _ => rfl
  | .string _, _, _, _ => rfl
  | .integer _, _, _, _ => rfl
  | .group h, pairs, waiting, stack => by
      obtain ⟨operand, extensible, inner, hs, closed⟩ :=
        steps_expression h ((.key pairs, waiting) :: stack)
      rw [List.cons_append, steps_cons]
      simp only [step, Option.bind_some]
      rw [steps_append_of hs, steps_cons, step_complete (by simp), closed]
      rfl

end

end Completeness

/-! ## From the machine to the grammar -/

/-- The tokens of a comparison that waits for its right operand. -/
inductive WaitingSpelled : Waiting → List Kind → Prop
  | none : WaitingSpelled none []
  | some {ks : List Kind} {left : Expr} (comparison : Comparison) : Expression ks left →
      WaitingSpelled (some (left, comparison)) (ks ++ [.symbol comparison.symbol])

/-- The tokens of items, last one first, with a comma behind each. -/
inductive ItemsSpelled : List Expr → List Kind → Prop
  | nil : ItemsSpelled [] []
  | comma {ks : List Kind} {items : List Expr} : Items ks items.reverse →
      ItemsSpelled items (ks ++ [.symbol .comma])

/-- The tokens of pairs, last one first, with a comma behind each. -/
inductive PairsSpelled : List (Expr × Expr) → List Kind → Prop
  | nil : PairsSpelled [] []
  | comma {ks : List Kind} {pairs : List (Expr × Expr)} : Pairs ks pairs.reverse →
      PairsSpelled pairs (ks ++ [.symbol .comma])

/-- The tokens of what an expression is read for, up to where the expression begins. -/
inductive PurposeSpelled : Purpose → List Kind → Prop
  | item {items : List Expr} {ks : List Kind} : ItemsSpelled items ks →
      PurposeSpelled (.item items) (.symbol .openBracket :: ks)
  | key {pairs : List (Expr × Expr)} {ks : List Kind} : PairsSpelled pairs ks →
      PurposeSpelled (.key pairs) (.symbol .openBrace :: ks ++ [.symbol .openParen])
  | value {pairs : List (Expr × Expr)} {key : Expr} {ks ks' : List Kind} :
      PairsSpelled pairs ks → Key ks' key →
        PurposeSpelled (.value pairs key) (.symbol .openBrace :: ks ++ ks' ++ [.symbol .colon])
  | group : PurposeSpelled .group [.symbol .openParen]
  | index {object : Expr} {ks : List Kind} : Reference ks object →
      PurposeSpelled (.index object) (ks ++ [.symbol .openBracket])

/-- The tokens of what is open, from the bottom of the stack to its top. -/
inductive StackSpelled : Stack → List Kind → Prop
  | nil : StackSpelled [] []
  | cons {stack : Stack} {waiting : Waiting} {purpose : Purpose} {ks ks' ks'' : List Kind} :
      StackSpelled stack ks → WaitingSpelled waiting ks' → PurposeSpelled purpose ks'' →
        StackSpelled ((purpose, waiting) :: stack) (ks ++ ks' ++ ks'')

/-- The tokens of what is open and of a comparison that waits there. -/
def ContextSpelled (waiting : Waiting) (stack : Stack) (ks : List Kind) : Prop :=
  ∃ below here, StackSpelled stack below ∧ WaitingSpelled waiting here ∧ ks = below ++ here

/-- The tokens that a state has been reached with. -/
inductive Spelled : State → List Kind → Prop
  | operand {waiting : Waiting} {stack : Stack} {ks : List Kind} :
      ContextSpelled waiting stack ks → Spelled (.operand waiting stack) ks
  | item {items : List Expr} {waiting : Waiting} {stack : Stack} {ks ks' : List Kind} :
      ContextSpelled waiting stack ks → ItemsSpelled items ks' →
        Spelled (.item items waiting stack) (ks ++ .symbol .openBracket :: ks')
  | key {pairs : List (Expr × Expr)} {waiting : Waiting} {stack : Stack} {ks ks' : List Kind} :
      ContextSpelled waiting stack ks → PairsSpelled pairs ks' →
        Spelled (.key pairs waiting stack) (ks ++ .symbol .openBrace :: ks')
  | colon {pairs : List (Expr × Expr)} {key : Expr} {waiting : Waiting} {stack : Stack}
      {ks ks' ks'' : List Kind} : ContextSpelled waiting stack ks → PairsSpelled pairs ks' →
        Key ks'' key →
          Spelled (.colon pairs key waiting stack) (ks ++ .symbol .openBrace :: ks' ++ ks'')
  | dot {object : Expr} {waiting : Waiting} {stack : Stack} {ks ks' : List Kind} :
      ContextSpelled waiting stack ks → Reference ks' object →
        Spelled (.attribute object waiting stack) (ks ++ ks' ++ [.symbol .dot])
  | complete {operand : Expr} {extensible : Bool} {waiting : Waiting} {stack : Stack}
      {ks ks' : List Kind} : ContextSpelled waiting stack ks → Operand ks' operand →
        (extensible = true → Reference ks' operand) →
          Spelled (.complete operand extensible waiting stack) (ks ++ ks')

section Soundness

theorem WaitingSpelled.close {waiting : Waiting} {ks ks' : List Kind} {e : Expr}
    (h : WaitingSpelled waiting ks) (he : Operand ks' e) :
    Expression (ks ++ ks') (waiting.close e) := by
  cases h with
  | none => exact .operand he
  | some comparison left =>
      rw [List.append_assoc, List.singleton_append]
      exact .compare comparison left he

theorem ItemsSpelled.items {items : List Expr} {ks ks' : List Kind} {e : Expr}
    (h : ItemsSpelled items ks) (he : Expression ks' e) :
    Items (ks ++ ks') (e :: items).reverse := by
  rw [List.reverse_cons]
  cases h with
  | nil => exact .one he
  | comma before =>
      rw [List.append_assoc, List.singleton_append]
      exact .more before he

theorem PairsSpelled.pairs {pairs : List (Expr × Expr)} {ks ks' : List Kind} {pair : Expr × Expr}
    (h : PairsSpelled pairs ks) (hp : Pair ks' pair) :
    Pairs (ks ++ ks') (pair :: pairs).reverse := by
  rw [List.reverse_cons]
  cases h with
  | nil => exact .one hp
  | comma before =>
      rw [List.append_assoc, List.singleton_append]
      exact .more before hp

/-- A list ends behind an item, behind a comma or at once. -/
theorem ItemsSpelled.operand {items : List Expr} {ks : List Kind} (h : ItemsSpelled items ks) :
    Operand (.symbol .openBracket :: ks ++ [.symbol .closeBracket]) (.list items.reverse) := by
  cases h with
  | nil => exact .emptyList
  | comma items => exact .list items (.inr rfl)

theorem PairsSpelled.operand {pairs : List (Expr × Expr)} {ks : List Kind}
    (h : PairsSpelled pairs ks) :
    Operand (.symbol .openBrace :: ks ++ [.symbol .closeBrace]) (.hash pairs.reverse) := by
  cases h with
  | nil => exact .emptyHash
  | comma pairs => exact .hash pairs (.inr rfl)

theorem ContextSpelled.empty {stack : Stack} {ks : List Kind} (h : StackSpelled stack ks) :
    ContextSpelled none stack ks :=
  ⟨ks, [], h, .none, (List.append_nil ks).symm⟩

theorem ContextSpelled.push {waiting : Waiting} {stack : Stack} {purpose : Purpose}
    {ks ks' : List Kind} (h : ContextSpelled waiting stack ks) (hp : PurposeSpelled purpose ks') :
    ContextSpelled none ((purpose, waiting) :: stack) (ks ++ ks') := by
  obtain ⟨below, here, hs, hw, rfl⟩ := h
  exact .empty (.cons hs hw hp)

theorem Spelled.reference {e : Expr} {waiting : Waiting} {stack : Stack} {ks ks' : List Kind}
    (h : ContextSpelled waiting stack ks) (he : Reference ks' e) :
    Spelled (.complete e true waiting stack) (ks ++ ks') :=
  .complete h (.reference he) fun _ => he

theorem Spelled.fixed {e : Expr} {waiting : Waiting} {stack : Stack} {ks ks' : List Kind}
    (h : ContextSpelled waiting stack ks) (he : Operand ks' e) :
    Spelled (.complete e false waiting stack) (ks ++ ks') :=
  .complete h he nofun

theorem spelled_beginOperand {waiting : Waiting} {stack : Stack} {ks : List Kind} {k : Kind}
    {state : State} (h : ContextSpelled waiting stack ks)
    (hb : beginOperand waiting stack k = some state) : Spelled state (ks ++ [k]) := by
  cases k with
  | string value => cases hb; exact .fixed h (.string value)
  | integer value => cases hb; exact .fixed h (.integer value)
  | real written => cases hb; exact .fixed h (.real written)
  | name word =>
      cases known : constant? word with
      | some e =>
          have derived := constant?_eq_some_iff.mp known
          rw [beginOperand_constant derived] at hb
          cases hb
          exact .fixed h (.constant derived)
      | none =>
          have derived := constant?_eq_none_iff.mp known
          rw [beginOperand_name derived] at hb
          cases hb
          exact .reference h (.name derived)
  | symbol mark =>
      cases mark with
      | openBracket => cases hb; exact .item h .nil
      | openBrace => cases hb; exact .key h .nil
      | openParen => cases hb; exact .operand (h.push .group)
      | _ => cases hb
  | _ => cases hb

theorem StackSpelled.pop {purpose : Purpose} {waiting : Waiting} {stack : Stack} {ks : List Kind}
    (h : StackSpelled ((purpose, waiting) :: stack) ks) :
    ∃ below here, ks = below ++ here ∧ ContextSpelled waiting stack below ∧
      PurposeSpelled purpose here := by
  cases h with
  | cons hs hw hp => exact ⟨_, _, rfl, ⟨_, _, hs, hw, rfl⟩, hp⟩

theorem spelled_endExpression {stack : Stack} {ks ks' : List Kind} {k : Kind} {value : Expr}
    {state : State} (h : StackSpelled stack ks) (hv : Expression ks' value)
    (he : endExpression value stack k = some state) : Spelled state (ks ++ ks' ++ [k]) := by
  unfold endExpression at he
  split at he
  case h_8 => cases he
  all_goals
    -- what is on top of the stack ends here, what is below it is the new context
    obtain ⟨below, here, rfl, context, purpose⟩ := h.pop
    cases he
    cases purpose
  -- the comma or the bracket behind an item
  case h_1 items => simpa using Spelled.item context (.comma (items.items hv))
  case h_2 items => simpa using Spelled.fixed context (.list (items.items hv) (.inl rfl))
  -- the parenthesis behind a key, the comma and the brace behind a value
  case h_3 pairs => simpa using Spelled.colon context pairs (.group hv)
  case h_4 pairs key => simpa using Spelled.key context (.comma (pairs.pairs (.mk key hv)))
  case h_5 pairs key =>
      simpa using Spelled.fixed context (.hash (pairs.pairs (.mk key hv)) (.inl rfl))
  -- the ends of a group and of an index
  case h_6 => simpa using Spelled.reference context (.group hv)
  case h_7 object => simpa using Spelled.reference context (.index object hv)

/-- The tokens behind a complete operand spell an expression above what is open. -/
theorem ContextSpelled.close {waiting : Waiting} {stack : Stack} {ks ks' : List Kind} {e : Expr}
    (h : ContextSpelled waiting stack ks) (he : Operand ks' e) :
    ∃ below here, StackSpelled stack below ∧ Expression here (waiting.close e) ∧
      ks ++ ks' = below ++ here := by
  obtain ⟨below, here, hs, hw, rfl⟩ := h
  exact ⟨below, here ++ ks', hs, hw.close he, List.append_assoc ..⟩

/-- One more token is spelled at the end. -/
theorem spelled_step {state next : State} {ks : List Kind} {k : Kind} (h : Spelled state ks)
    (hs : step state k = some next) : Spelled next (ks ++ [k]) := by
  unfold step at hs
  split at hs
  -- these three go on with another function of the machine, the others are one transition each
  case h_16 => cases hs
  case h_1 =>
      obtain ⟨context⟩ := h
      exact spelled_beginOperand context hs
  case h_3 =>
      obtain - | ⟨context, items⟩ := h
      exact spelled_beginOperand (context.push (.item items)) hs
  case h_15 =>
      obtain - | - | - | - | - | ⟨context, operand, reference⟩ := h
      obtain ⟨below, here, stack, value, split⟩ := context.close operand
      rw [split]
      exact spelled_endExpression stack value hs
  all_goals
    cases hs
    cases h
  -- a list and a hash that end behind a comma, or at once
  case h_2 items context => simpa using Spelled.fixed context items.operand
  case h_4 pairs context => simpa using Spelled.fixed context pairs.operand
  -- the keys of a hash, and the colon behind them
  case h_5 pairs context => exact .colon context pairs (.name _)
  case h_6 pairs context => exact .colon context pairs (.string _)
  case h_7 pairs context => exact .colon context pairs (.integer _)
  case h_8 pairs context => simpa using Spelled.operand (context.push (.key pairs))
  case h_9 pairs key context => simpa using Spelled.operand (context.push (.value pairs key))
  -- attributes and indices
  case h_10 object context => simpa using Spelled.reference context (.attribute _ object)
  case h_11 operand reference context => exact .dot context (reference rfl)
  case h_12 operand reference context =>
      simpa using Spelled.operand (context.push (.index (reference rfl)))
  -- comparisons: what is complete becomes the left side of the one that waits
  case h_13 operand reference context =>
      obtain ⟨below, here, stack, value, split⟩ := context.close operand
      exact .operand ⟨below, _, stack, .some .equal value, by rw [split]; simp; rfl⟩
  case h_14 operand reference context =>
      obtain ⟨below, here, stack, value, split⟩ := context.close operand
      exact .operand ⟨below, _, stack, .some .unequal value, by rw [split]; simp; rfl⟩

theorem spelled_steps {state next : State} {ks ks' : List Kind} (h : Spelled state ks)
    (hs : steps state ks' = some next) : Spelled next (ks ++ ks') := by
  induction ks' generalizing state ks with
  | nil =>
      cases hs
      rwa [List.append_nil]
  | cons k ks' ih =>
      rw [steps_cons, Option.bind_eq_some_iff] at hs
      obtain ⟨mid, first, rest⟩ := hs
      simpa using ih (spelled_step h first) rest

theorem spelled_start : Spelled start [] := .operand (.empty .nil)

end Soundness

/-- From its start, the machine accepts exactly the expressions that the grammar derives. -/
theorem accepts_start_iff {ks : List Kind} {e : Expr} :
    Accepts start ks e ↔ Expression ks e := by
  constructor
  · rintro ⟨state, hs, value⟩
    have spelled := spelled_steps spelled_start hs
    cases spelled with
    | @complete operand extensible waiting stack below here context operand' _ =>
        cases stack with
        | nil =>
            cases value
            obtain ⟨below', here', stack, derived, split⟩ := context.close operand'
            cases stack
            -- nothing is open, so the tokens are those of the expression alone
            have all : below ++ here = here' := split
            subst all
            exact derived
        | cons => cases value
    | _ => cases value
  · intro derived
    obtain ⟨operand, extensible, waiting, hs, closed⟩ := steps_expression derived []
    exact ⟨_, hs, congrArg some closed⟩

end SheetMarkup.Expr.Reader
