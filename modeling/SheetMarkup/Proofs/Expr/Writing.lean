import Mathlib.Data.List.Induction
import SheetMarkup.Proofs.Expr.Longest
import SheetMarkup.Proofs.Lexeme.Spelling

/-!
# Writing expressions

Every expression that can be read at all can be written: objects of attributes and indices, operands
of comparisons and keys of hashes in parentheses, and a comma behind every item and pair
(`Expr.row`). The grammar derives the expression from what is written (`Expr.WellFormed.derived`).
Written expressions may stand one after another. Where one ends, no token of the next can extend it:
a list behind a name begins like an index, but the comma behind its first item shows that it is none
(`WellFormed.longest`).
-/

namespace SheetMarkup

open Grammar
open Token (Kind kinds)

/-! ## Written expressions -/

mutual

/-- The tokens that an expression is written with. -/
def Expr.row : Expr → List Kind
  | .string value => [.string value]
  | .integer value => [.integer value]
  | .real written => [.real written]
  | .bool true => [.name "true"]
  | .bool false => [.name "false"]
  | .null => [.name "null"]
  | .name word => [.name word]
  | .array entries =>
    if Expr.showsHash entries then
      .symbol .openBrace :: Entry.rows entries ++ [.symbol .closeBrace]
    else .symbol .openBracket :: Entry.rows entries ++ [.symbol .closeBracket]
  | .attribute object word =>
    .symbol .openParen :: object.row ++ [.symbol .closeParen, .symbol .dot, .name word]
  | .index object index =>
    .symbol .openParen :: object.row ++ [.symbol .closeParen, .symbol .openBracket] ++ index.row ++
      [.symbol .closeBracket]
  | .compare comparison left right =>
    .symbol .openParen :: left.row ++ [.symbol .closeParen, .symbol comparison.symbol,
      .symbol .openParen] ++ right.row ++ [.symbol .closeParen]

/-- The tokens that an entry is written with. -/
def Entry.row : Entry → List Kind
  | .item value => value.row ++ [.symbol .comma]
  | .pair key value =>
    .symbol .openParen :: key.row ++ [.symbol .closeParen, .symbol .colon] ++ value.row ++
      [.symbol .comma]

/-- The tokens that entries are written with. -/
def Entry.rows : List Entry → List Kind
  | [] => []
  | entry :: more => entry.row ++ Entry.rows more

end

/-- The expressions that are the value of something written: numbers that can be written, names that
are no literals, and arrays that are lists or hashes. -/
inductive Expr.WellFormed : Expr → Prop
  | string (value : String) : WellFormed (.string value)
  | integer (value : Int64) : WellFormed (.integer value)
  | real {written : String} : (Kind.real written).Writable → WellFormed (.real written)
  | bool (value : Bool) : WellFormed (.bool value)
  | null : WellFormed .null
  | name {word : String} : IsIdentifier word → word ∉ constants.map Prod.fst →
      WellFormed (.name word)
  | list {items : List Expr} : (∀ e ∈ items, e.WellFormed) → WellFormed (.list items)
  | hash {pairs : List (Expr × Expr)} : (∀ pair ∈ pairs, pair.1.WellFormed) →
      (∀ pair ∈ pairs, pair.2.WellFormed) → WellFormed (.hash pairs)
  | attributeOf {object : Expr} {word : String} : object.WellFormed → IsIdentifier word →
      WellFormed (.attribute object word)
  | indexOf {object index : Expr} : object.WellFormed → index.WellFormed →
      WellFormed (.index object index)
  | comparison {left right : Expr} (comparison : Comparison) : left.WellFormed →
      right.WellFormed → WellFormed (.compare comparison left right)

namespace Expr

/-- An item as it is written, with the comma behind it. -/
def itemRow (item : Expr) : List Kind := item.row ++ [.symbol .comma]

/-- A pair as it is written, with the comma behind it. -/
def pairRow (pair : Expr × Expr) : List Kind :=
  .symbol .openParen :: pair.1.row ++ [.symbol .closeParen, .symbol .colon] ++ pair.2.row ++
    [.symbol .comma]

theorem rows_items (items : List Expr) :
    Entry.rows (items.map .item) = items.flatMap itemRow := by
  induction items with
  | nil => rfl
  | cons item items ih => rw [List.map_cons, Entry.rows, Entry.row, ih]; rfl

theorem rows_pairs (pairs : List (Expr × Expr)) :
    Entry.rows (pairs.map fun (key, value) => .pair key value) = pairs.flatMap pairRow := by
  induction pairs with
  | nil => rfl
  | cons pair pairs ih => rw [List.map_cons, Entry.rows, Entry.row, ih]; rfl

theorem showsHash_items (items : List Expr) : showsHash (items.map Entry.item) = false := by
  cases items <;> rfl

/-- Pairs are shown in braces, unless there are none. -/
theorem showsHash_pairs {pairs : List (Expr × Expr)} (ne : pairs ≠ []) :
    showsHash (pairs.map fun (key, value) => .pair key value) = true := by
  cases pairs with
  | nil => exact absurd rfl ne
  | cons => rfl

theorem row_list (items : List Expr) :
    (list items).row =
      .symbol .openBracket :: items.flatMap itemRow ++ [.symbol .closeBracket] := by
  rw [list, row, showsHash_items, rows_items]
  rfl

theorem row_hash {pairs : List (Expr × Expr)} (ne : pairs ≠ []) :
    (hash pairs).row =
      .symbol .openBrace :: pairs.flatMap pairRow ++ [.symbol .closeBrace] := by
  rw [hash, row, showsHash_pairs ne, rows_pairs]
  rfl

/-! ## The grammar derives what is written -/

theorem items_of_flatMap {items : List Expr} (ne : items ≠ [])
    (h : ∀ e ∈ items, Expression e.row e) :
    ∃ ks, Items ks items ∧ items.flatMap itemRow = ks ++ [.symbol .comma] := by
  induction items using List.reverseRecOn with
  | nil => exact absurd rfl ne
  | append_singleton items item ih =>
      have last := h item (by simp)
      cases items with
      | nil => exact ⟨item.row, .one last, by simp [itemRow]⟩
      | cons first items =>
          obtain ⟨ks, before, eq⟩ := ih (by simp) fun e mem =>
            h e (List.mem_append_left _ mem)
          refine ⟨ks ++ .symbol .comma :: item.row, .more before last, ?_⟩
          rw [List.flatMap_append, eq]
          simp [itemRow]

theorem pairs_of_flatMap {pairs : List (Expr × Expr)} (ne : pairs ≠ [])
    (keys : ∀ pair ∈ pairs, Expression pair.1.row pair.1)
    (values : ∀ pair ∈ pairs, Expression pair.2.row pair.2) :
    ∃ ks, Pairs ks pairs ∧ pairs.flatMap pairRow = ks ++ [.symbol .comma] := by
  have written : ∀ pair ∈ pairs, ∃ ks, Pair ks pair ∧
      pairRow pair = ks ++ [Kind.symbol .comma] := by
    intro pair mem
    have key : Key (.symbol .openParen :: pair.1.row ++ [Kind.symbol .closeParen]) pair.1 :=
      .group (keys pair mem)
    exact ⟨_, .mk key (values pair mem), by simp [pairRow]⟩
  clear keys values
  -- from the end, as the grammar puts the last pair behind the others
  induction pairs using List.reverseRecOn with
  | nil => exact absurd rfl ne
  | append_singleton pairs pair ih =>
      obtain ⟨ks', last, eq'⟩ := written pair (by simp)
      cases pairs with
      | nil => exact ⟨ks', .one last, by simp [eq']⟩
      | cons first pairs =>
          obtain ⟨ks, before, eq⟩ := ih (by simp) fun other mem =>
            written other (List.mem_append_left _ mem)
          refine ⟨ks ++ .symbol .comma :: ks', .more before last, ?_⟩
          rw [List.flatMap_append, eq]
          simp [eq']

/-- In parentheses every expression is an operand. -/
theorem reference_group {e : Expr} (h : Expression e.row e) :
    Reference (.symbol .openParen :: e.row ++ [.symbol .closeParen]) e := .group h

theorem WellFormed.derived {e : Expr} (h : e.WellFormed) : Expression e.row e := by
  induction h with
  | string value => exact .operand (.string value)
  | integer value => exact .operand (.integer value)
  | real => exact .operand (.real _)
  | bool value => cases value <;> exact .operand (.constant (by simp [constants]))
  | null => exact .operand (.constant (by simp [constants]))
  | name _ free => exact .operand (.reference (.name free))
  | @list items _ ih =>
      rw [row_list]
      by_cases ne : items = []
      · subst ne
        exact .operand .emptyList
      · obtain ⟨ks, derived, eq⟩ := items_of_flatMap ne ih
        rw [eq, ← List.cons_append]
        exact .operand (.list derived (.inr rfl))
  | @hash pairs _ _ keys values =>
      -- a hash without pairs is the empty list
      by_cases ne : pairs = []
      · subst ne
        exact .operand .emptyList
      · obtain ⟨ks, derived, eq⟩ := pairs_of_flatMap ne keys values
        rw [row_hash ne, eq, ← List.cons_append]
        exact .operand (.hash derived (.inr rfl))
  | @attributeOf object word _ _ ih =>
      have derived := Reference.attribute word (reference_group ih)
      rw [row]
      simpa using Expression.operand (.reference derived)
  | @indexOf object index _ _ ih ih' =>
      have derived := Reference.index (reference_group ih) ih'
      rw [row]
      simpa using Expression.operand (.reference derived)
  | @comparison left right comparison _ _ ih ih' =>
      have derived := Expression.compare comparison (.operand (.reference (reference_group ih)))
        (.reference (reference_group ih'))
      rw [row]
      simpa using derived

/-! ## What is written closes its braces -/

theorem balanced_symbol {mark : Symbol} (openBrace : mark ≠ .openBrace)
    (closeBrace : mark ≠ .closeBrace) : Kind.Balanced [.symbol mark] :=
  .singleton trivial (by simpa using openBrace) (by simpa using closeBrace)

theorem isIdentifier_of_mem_constants {word : String} (h : word ∈ constants.map Prod.fst) :
    IsIdentifier word := by
  simp only [constants, List.map_cons, List.map_nil, List.mem_cons, List.not_mem_nil,
    or_false] at h
  rcases h with rfl | rfl | rfl | rfl <;>
    exact ⟨_, _, rfl, rfl, List.all_eq_true.mp rfl⟩

theorem balanced_name {word : String} (h : IsIdentifier word) : Kind.Balanced [.name word] :=
  .singleton h (by simp) (by simp)

theorem balanced_group {ks : List Kind} (h : Kind.Balanced ks) :
    Kind.Balanced (.symbol .openParen :: ks ++ [.symbol .closeParen]) :=
  ((balanced_symbol (by simp) (by simp)).append h).append (balanced_symbol (by simp) (by simp))

theorem WellFormed.balanced {e : Expr} (h : e.WellFormed) : Kind.Balanced e.row := by
  have comma : Kind.Balanced [.symbol .comma] := balanced_symbol (by simp) (by simp)
  induction h with
  | string | integer => exact .singleton trivial (by simp) (by simp)
  | real written => exact .singleton written (by simp) (by simp)
  | bool value =>
      cases value <;> exact balanced_name (isIdentifier_of_mem_constants (by simp [constants]))
  | null => exact balanced_name (isIdentifier_of_mem_constants (by simp [constants]))
  | name identifier => exact balanced_name identifier
  | list _ ih =>
      rw [row_list]
      have items := Kind.Balanced.flatMap fun e mem => (ih e mem).append comma
      exact ((balanced_symbol (by simp) (by simp)).append items).append
        (balanced_symbol (by simp) (by simp))
  | @hash pairs _ _ keys values =>
      -- the empty hash is written without the pair that `row_hash` puts last
      by_cases ne : pairs = []
      · subst ne
        exact (balanced_symbol (by simp) (by simp)).append (balanced_symbol (by simp) (by simp))
      rw [row_hash ne]
      refine (Kind.Balanced.flatMap fun pair mem => ?_).braces
      have colon : Kind.Balanced [.symbol .colon] := balanced_symbol (by simp) (by simp)
      have key := (balanced_group (keys pair mem)).append colon
      simpa [pairRow] using (key.append (values pair mem)).append comma
  | attributeOf _ identifier ih =>
      have dot : Kind.Balanced [.symbol .dot] := balanced_symbol (by simp) (by simp)
      simpa [row] using ((balanced_group ih).append dot).append (balanced_name identifier)
  | indexOf _ _ ih ih' =>
      have opened : Kind.Balanced [.symbol .openBracket] := balanced_symbol (by simp) (by simp)
      have closed : Kind.Balanced [.symbol .closeBracket] := balanced_symbol (by simp) (by simp)
      simpa [row] using (((balanced_group ih).append opened).append ih').append closed
  | comparison comparison _ _ ih ih' =>
      have mark : Kind.Balanced [.symbol comparison.symbol] := by
        cases comparison <;> exact balanced_symbol nofun nofun
      simpa [row] using ((balanced_group ih).append mark).append (balanced_group ih')

end Expr

/-! ## Runs above a stack -/

namespace Expr.Reader

/-- The state with some more open around it. -/
def State.over (base : Stack) : State → State
  | .operand waiting stack => .operand waiting (stack ++ base)
  | .item items waiting stack => .item items waiting (stack ++ base)
  | .key pairs waiting stack => .key pairs waiting (stack ++ base)
  | .colon pairs first waiting stack => .colon pairs first waiting (stack ++ base)
  | .attribute object waiting stack => .attribute object waiting (stack ++ base)
  | .complete value extensible waiting stack =>
    .complete value extensible waiting (stack ++ base)

variable {base : Stack} {state next : State} {k : Kind}

theorem beginOperand_over {waiting : Waiting} {stack : Stack}
    (h : beginOperand waiting stack k = some next) :
    beginOperand waiting (stack ++ base) k = some (next.over base) := by
  cases k with
  | name word =>
      cases found : constant? word with
      | none =>
          rw [beginOperand_name (constant?_eq_none_iff.mp found)] at h ⊢
          cases h
          rfl
      | some e =>
          rw [beginOperand_constant (constant?_eq_some_iff.mp found)] at h ⊢
          cases h
          rfl
  | symbol mark => cases mark <;> cases h <;> rfl
  | _ => cases h <;> rfl

theorem endExpression_over {value : Expr} {stack : Stack}
    (h : endExpression value stack k = some next) :
    endExpression value (stack ++ base) k = some (next.over base) := by
  cases stack with
  | nil => cases h
  | cons entry stack =>
      obtain ⟨purpose, waiting⟩ := entry
      cases k with
      | symbol mark => cases purpose <;> cases mark <;> cases h <;> rfl
      | _ => cases purpose <;> cases h

/-- A token that does not close a list begins an item. -/
theorem step_item {items : List Expr} {waiting : Waiting} {stack : Stack}
    (h : k ≠ .symbol .closeBracket) :
    step (.item items waiting stack) k =
      beginOperand none ((.item items, waiting) :: stack) k := by
  cases k with
  | symbol mark =>
      cases mark with
      | closeBracket => exact absurd rfl h
      | _ => rfl
  | _ => rfl

/-- A step never looks below the stack that it needs. -/
theorem step_over (h : step state k = some next) :
    step (state.over base) k = some (next.over base) := by
  cases state with
  | operand waiting stack => exact beginOperand_over h
  | item items waiting stack =>
      by_cases close : k = .symbol .closeBracket
      · subst close
        cases h
        rfl
      · rw [step_item close] at h
        rw [State.over, step_item close]
        exact beginOperand_over h
  | key pairs waiting stack =>
      cases k with
      | symbol mark => cases mark <;> cases h <;> rfl
      | _ => cases h <;> rfl
  | colon pairs first waiting stack =>
      cases k with
      | symbol mark =>
          cases mark <;> cases h
          rfl
      | _ => cases h
  | «attribute» object waiting stack =>
      cases k with
      | name word => cases h; rfl
      | _ => cases h
  | complete value extensible waiting stack =>
      -- a complete operand goes on with a mark behind it, or else the expression ends here
      have ended : ∀ k', endExpression (waiting.close value) stack k' = some next →
          endExpression (waiting.close value) (stack ++ base) k' = some (next.over base) :=
        fun _ => endExpression_over
      cases k with
      | symbol mark =>
          cases mark with
          | equal | unequal => cases extensible <;> cases h <;> rfl
          | dot | openBracket =>
              cases extensible with
              | true => cases h; rfl
              | false => exact ended _ h
          | _ => cases extensible <;> exact ended _ h
      | _ => cases extensible <;> exact ended _ h

theorem steps_over {ks : List Kind} (h : steps state ks = some next) :
    steps (state.over base) ks = some (next.over base) := by
  induction ks generalizing state with
  | nil => cases h; rfl
  | cons k ks ih =>
      rw [steps_cons, Option.bind_eq_some_iff] at h
      obtain ⟨middle, first, rest⟩ := h
      rw [steps_cons, step_over first, Option.bind_some, ih rest]

/-- Nothing is complete while something is open below. -/
theorem value?_over (ne : base ≠ []) (state : State) : (state.over base).value? = none := by
  cases state with
  | complete value extensible waiting stack =>
      cases stack with
      | nil =>
          cases base with
          | nil => exact absurd rfl ne
          | cons => rfl
      | cons => rfl
  | _ => rfl

/-! ## Where an expression ends -/

/-- Inside of brackets nothing is complete, and they do not close behind an item and a comma. -/
theorem dead_index {ks : List Kind} {item : Expr} (h : Expression ks item) (object : Expr)
    (waiting : Waiting) (rest : List Kind) :
    Dead (.operand none [(.index object, waiting)]) (ks ++ .symbol .comma :: rest) := by
  intro taken e begins ne ⟨state', run, complete⟩
  obtain ⟨whole, accepted, -⟩ := accepts_start_iff.mpr h
  rcases List.prefix_or_prefix_of_prefix begins (List.prefix_append ks _) with
    ⟨more, rfl⟩ | ⟨more, rfl⟩
  · -- a part of the item: the machine runs as it would without brackets around
    rw [steps_append, Option.bind_eq_some_iff] at accepted
    obtain ⟨middle, start, -⟩ := accepted
    have above : steps (.operand none [(.index object, waiting)]) taken =
        some (middle.over [(.index object, waiting)]) := steps_over start
    cases run.symm.trans above
    rw [value?_over (by simp)] at complete
    cases complete
  · have behind := (List.prefix_append_right_inj ks).mp begins
    obtain ⟨operand, extensible, inner, reached, -⟩ :=
      steps_expression h [(.index object, waiting)]
    rw [steps_append_of reached] at run
    cases more with
    | nil =>
        cases run
        cases complete
    | cons k more =>
        obtain ⟨rfl, -⟩ := List.cons_prefix_cons.mp behind
        rw [steps_cons, step_complete (by simp)] at run
        cases run

/-- Behind a complete expression another one that is written does not extend it. -/
theorem dead_complete {e : Expr} (h : e.WellFormed) (operand : Expr) (extensible : Bool)
    (waiting : Waiting) (rest : List Kind) :
    Dead (.complete operand extensible waiting []) (e.row ++ rest) := by
  -- an empty list behind a reference begins an index, in which an operand must follow
  have empty : Dead (.complete operand extensible waiting []) ((Expr.list []).row ++ rest) := by
    cases extensible with
    | false => exact .of_step_eq_none rfl
    | true => exact .of_step rfl rfl (.of_step_eq_none rfl)
  cases h with
  | string | integer | real | null | name => cases extensible <;> exact .of_step_eq_none rfl
  | bool value => cases extensible <;> cases value <;> exact .of_step_eq_none rfl
  | @list items itemsFormed =>
      cases items with
      | nil => exact empty
      | cons item items =>
          rw [row_list, List.cons_append, List.cons_append]
          cases extensible with
          | false => exact .of_step_eq_none rfl
          | true =>
              -- the bracket opens an index; the comma behind the item cannot stand in one
              have first := (itemsFormed item (by simp)).derived
              refine .of_step rfl rfl ?_
              simpa [itemRow] using dead_index first operand waiting _
  | @hash pairs =>
      by_cases ne : pairs = []
      · subst ne
        exact empty
      · rw [row_hash ne]
        cases extensible <;> exact .of_step_eq_none rfl
  | attributeOf | indexOf | comparison => cases extensible <;> exact .of_step_eq_none rfl

end Expr.Reader

open Expr.Reader in
/-- Where one written expression ends and others follow, it is a longest one. -/
theorem Expr.WellFormed.longest {e : Expr} (h : e.WellFormed) {es : List Expr}
    (others : ∀ e' ∈ es, e'.WellFormed) {taken more : List Token} (first : kinds taken = e.row)
    (rest : kinds more = es.flatMap Expr.row) : LongestExpression (taken ++ more) taken e := by
  have derived : Expression (kinds taken) e := first ▸ h.derived
  refine ⟨List.prefix_append taken more, derived, ?_⟩
  intro longer e' begins accepted
  rcases List.prefix_or_prefix_of_prefix begins (List.prefix_append taken more) with
    shorter | ⟨extra, rfl⟩
  · exact shorter.length_le
  have behind := (List.prefix_append_right_inj taken).mp begins
  -- anything longer would take tokens of the next expression
  cases extra with
  | nil => simp
  | cons token extra =>
      obtain ⟨operand, extensible, waiting, reached, -⟩ := steps_expression derived []
      obtain ⟨state, run, complete⟩ := accepts_start_iff.mpr accepted
      rw [Token.kinds_append, start, steps_append_of reached] at run
      cases es with
      | nil =>
          cases List.map_eq_nil_iff.mp rest
          cases List.prefix_nil.mp behind
      | cons next es =>
          have dead := dead_complete (others next (by simp)) operand extensible waiting
            (es.flatMap Expr.row)
          rw [List.flatMap_cons] at rest
          rw [← rest] at dead
          exact absurd ⟨state, run, complete⟩ (dead _ e' (behind.map Token.kind) (by simp))

end SheetMarkup
