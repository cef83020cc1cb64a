import SheetMarkup.Expr.Basic
import SheetMarkup.Token.Basic

/-!
# Reading expressions

An expression is an operand, or comparisons between operands that associate to the left. Operands
are literals, lists, hashes, names and expressions in parentheses; the last two may be followed by
attributes and indices. Lists and hashes that are not empty may end with a comma.

The reader takes one token at a time and keeps what is open on a stack, so at any moment it knows
which tokens can come next. It goes on as far as it can and then falls back to the last place at
which an expression was complete; where there is none, the token it stopped at is refused.
-/

namespace SheetMarkup.Expr.Reader

/-- A comparison whose right operand is still to come: its left operand and itself. -/
abbrev Waiting := Option (Expr × Comparison)

/-- Completes the comparison that waits, if one does. -/
def Waiting.close : Waiting → Expr → Expr
  | none, e => e
  | some (left, comparison), e => .compare comparison left e

/-- What an expression is read for: the next item of a list, a key of a hash in parentheses, the
value of a key, an expression in parentheses, or an index. Items and pairs read before stand in
reverse. -/
inductive Purpose where
  | item (items : List Expr)
  | key (pairs : List (Expr × Expr))
  | value (pairs : List (Expr × Expr)) (key : Expr)
  | group
  | index (object : Expr)

/-- What is open around the expression being read, innermost first: what it is read for, and the
comparison that waits there. -/
abbrev Stack := List (Purpose × Waiting)

/-- Where the reading of an expression stands. -/
inductive State where
  /-- An operand must begin. -/
  | operand (waiting : Waiting) (stack : Stack)
  /-- In a list: an item must begin, or the list ends. -/
  | item (items : List Expr) (waiting : Waiting) (stack : Stack)
  /-- In a hash: a key must begin, or the hash ends. -/
  | key (pairs : List (Expr × Expr)) (waiting : Waiting) (stack : Stack)
  /-- Behind a key. -/
  | colon (pairs : List (Expr × Expr)) (key : Expr) (waiting : Waiting) (stack : Stack)
  /-- Behind a dot. -/
  | attribute (object : Expr) (waiting : Waiting) (stack : Stack)
  /-- Behind an operand, which can have attributes and indices or not. -/
  | complete (operand : Expr) (extensible : Bool) (waiting : Waiting) (stack : Stack)

/-- Before the first token. -/
def start : State := .operand none []

/-- The literal that a word is, if it is one. -/
def constant? (word : String) : Option Expr :=
  if word = "true" then some (.bool true)
  else if word = "false" then some (.bool false)
  else if word = "null" ∨ word = "none" then some .null
  else none

/-- The first token of an operand. -/
def beginOperand (waiting : Waiting) (stack : Stack) : Token.Kind → Option State
  | .string value => some (.complete (.string value) false waiting stack)
  | .integer value => some (.complete (.integer value) false waiting stack)
  | .real written => some (.complete (.real written) false waiting stack)
  | .name word =>
    match constant? word with
    | some e => some (.complete e false waiting stack)
    | none => some (.complete (.name word) true waiting stack)
  | .symbol .openBracket => some (.item [] waiting stack)
  | .symbol .openBrace => some (.key [] waiting stack)
  | .symbol .openParen => some (.operand none ((.group, waiting) :: stack))
  | _ => none

/-- A token that ends an expression read for some purpose. -/
def endExpression (value : Expr) : Stack → Token.Kind → Option State
  | (.item items, waiting) :: stack, .symbol .comma => some (.item (value :: items) waiting stack)
  | (.item items, waiting) :: stack, .symbol .closeBracket =>
    some (.complete (.list (value :: items).reverse) false waiting stack)
  | (.key pairs, waiting) :: stack, .symbol .closeParen => some (.colon pairs value waiting stack)
  | (.value pairs key, waiting) :: stack, .symbol .comma =>
    some (.key ((key, value) :: pairs) waiting stack)
  | (.value pairs key, waiting) :: stack, .symbol .closeBrace =>
    some (.complete (.hash ((key, value) :: pairs).reverse) false waiting stack)
  | (.group, waiting) :: stack, .symbol .closeParen => some (.complete value true waiting stack)
  | (.index object, waiting) :: stack, .symbol .closeBracket =>
    some (.complete (.index object value) true waiting stack)
  | _, _ => none

/-- Takes one token; `none` refuses it. -/
def step : State → Token.Kind → Option State
  | .operand waiting stack, kind => beginOperand waiting stack kind
  | .item items waiting stack, .symbol .closeBracket =>
    some (.complete (.list items.reverse) false waiting stack)
  | .item items waiting stack, kind => beginOperand none ((.item items, waiting) :: stack) kind
  | .key pairs waiting stack, .symbol .closeBrace =>
    some (.complete (.hash pairs.reverse) false waiting stack)
  | .key pairs waiting stack, .name word => some (.colon pairs (.string word) waiting stack)
  | .key pairs waiting stack, .string value => some (.colon pairs (.string value) waiting stack)
  | .key pairs waiting stack, .integer value => some (.colon pairs (.integer value) waiting stack)
  | .key pairs waiting stack, .symbol .openParen =>
    some (.operand none ((.key pairs, waiting) :: stack))
  | .colon pairs key waiting stack, .symbol .colon =>
    some (.operand none ((.value pairs key, waiting) :: stack))
  | .attribute object waiting stack, .name word =>
    some (.complete (.attribute object word) true waiting stack)
  | .complete object true waiting stack, .symbol .dot => some (.attribute object waiting stack)
  | .complete object true waiting stack, .symbol .openBracket =>
    some (.operand none ((.index object, waiting) :: stack))
  | .complete operand _ waiting stack, .symbol .equal =>
    some (.operand (some (waiting.close operand, .equal)) stack)
  | .complete operand _ waiting stack, .symbol .unequal =>
    some (.operand (some (waiting.close operand, .unequal)) stack)
  -- no further comparison: the one that waits is complete, and with it the expression
  | .complete operand _ waiting stack, kind => endExpression (waiting.close operand) stack kind
  | _, _ => none

/-- The symbols that can come next. -/
def State.expected (state : State) : List Symbol :=
  Symbol.all.filter fun symbol => (step state (.symbol symbol)).isSome

/-- The expression read so far, where it is complete and nothing is open. -/
def State.value? : State → Option Expr
  | .complete e _ waiting [] => some (waiting.close e)
  | _ => none

end Reader

/-- A token that no expression can go on with, `none` if the tokens ended, its place among the
tokens, and the symbols that can come in its place. -/
structure Refusal where
  found : Option Token
  index : Nat
  expected : List Symbol
deriving DecidableEq, Repr

namespace Reader

/-- Reads on from a state that `count` tokens have led to. The last expression that was complete,
with the number of its tokens, is `best`. -/
def run (state : State) (count : Nat) (best : Option (Expr × Nat)) :
    List Token → Except Refusal (Expr × Nat)
  | [] => settle none
  | token :: rest =>
    match step state token.kind with
    | some next =>
      -- the newest complete expression is the longest one
      run next (count + 1) ((next.value?.map fun e => (e, count + 1)).or best) rest
    | none => settle (some token)
where
  /-- What the reading comes to when it cannot go on. -/
  settle (found : Option Token) : Except Refusal (Expr × Nat) :=
    match best with
    | some result => .ok result
    | none => .error ⟨found, count, state.expected⟩

end Reader

/-- Reads an expression at the beginning of a token list: the longest one, and the number of its
tokens. -/
def read (tokens : List Token) : Except Refusal (Expr × Nat) :=
  Reader.run Reader.start 0 none tokens

/-! ## An expression has tokens -/

namespace Reader

theorem run_pos {state : State} {count : Nat} {best : Option (Expr × Nat)} {tokens : List Token}
    {e : Expr} {n : Nat} (h : run state count best tokens = .ok (e, n))
    (pos : ∀ result, best = some result → 0 < result.2) : 0 < n := by
  induction tokens generalizing state count best with
  | nil =>
    simp only [run, run.settle] at h
    split at h
    · cases h; exact pos _ rfl
    · cases h
  | cons token rest ih =>
    simp only [run, run.settle] at h
    split at h
    · next next _ =>
      refine ih h fun result hr => ?_
      cases hv : next.value? with
      | none => exact pos result (by simpa [hv] using hr)
      | some v =>
        simp only [hv, Option.map_some, Option.some_or, Option.some.injEq] at hr
        subst hr
        exact Nat.succ_pos count
    · split at h
      · cases h; exact pos _ rfl
      · cases h

end Reader

theorem read_pos {tokens : List Token} {e : Expr} {n : Nat} (h : read tokens = .ok (e, n)) :
    0 < n :=
  Reader.run_pos h nofun

/-- No expression begins with the end of the template. -/
theorem kind_ne_eof_of_read {token : Token} {rest : List Token} {result : Expr × Nat}
    (h : read (token :: rest) = .ok result) : token.kind ≠ .eof := by
  intro eof
  have stop : Reader.step Reader.start .eof = none := rfl
  simp only [read, Reader.run, Reader.run.settle, eof, stop] at h
  cases h

end SheetMarkup.Expr
