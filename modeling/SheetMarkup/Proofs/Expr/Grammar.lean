import SheetMarkup.Expr.Reader

/-!
# The grammar of expressions

The expressions of a template form a language of token kinds. The rules say which rows of tokens
spell which expression: comparisons associate to the left, attributes and indices follow names and
parentheses alone, and lists and hashes that are not empty may end with a comma.

An expression is spelled with at least one token, and only with tokens that stand inside of tags
(`Expression.inner`).
-/

namespace SheetMarkup

/-- The tokens that stand inside of tags: names, literals and symbols. -/
def Token.Kind.IsInner : Token.Kind → Prop
  | .name _ | .string _ | .integer _ | .real _ | .symbol _ => True
  | .text _ | .opening _ | .closing _ | .eof => False

instance : DecidablePred Token.Kind.IsInner
  | .name _ | .string _ | .integer _ | .real _ | .symbol _ => .isTrue trivial
  | .text _ | .opening _ | .closing _ | .eof => .isFalse id

/-- The symbol of a comparison. -/
def Comparison.symbol : Comparison → Symbol
  | equal => .equal
  | unequal => .unequal

namespace Grammar

open Token (Kind)

/-- The names that are literals, with what they stand for. -/
def constants : List (String × Expr) :=
  [("true", .bool true), ("false", .bool false), ("null", .null), ("none", .null)]

/-- What may stand before the closing bracket of a list or hash that is not empty. -/
def Trail (ks : List Kind) : Prop := ks = [] ∨ ks = [.symbol .comma]

mutual

/-- An expression: operands with comparisons between them, from the left to the right. -/
inductive Expression : List Kind → Expr → Prop
  | operand {ks : List Kind} {e : Expr} : Operand ks e → Expression ks e
  | compare {ks ks' : List Kind} {left right : Expr} (comparison : Comparison) :
      Expression ks left → Operand ks' right →
        Expression (ks ++ .symbol comparison.symbol :: ks') (.compare comparison left right)

/-- An operand: a literal, a list, a hash or a reference. -/
inductive Operand : List Kind → Expr → Prop
  | string (value : String) : Operand [.string value] (.string value)
  | integer (value : Int64) : Operand [.integer value] (.integer value)
  | real (written : String) : Operand [.real written] (.real written)
  | constant {word : String} {e : Expr} : (word, e) ∈ constants → Operand [.name word] e
  | emptyList : Operand [.symbol .openBracket, .symbol .closeBracket] (.list [])
  | list {ks trail : List Kind} {items : List Expr} : Items ks items → Trail trail →
      Operand (.symbol .openBracket :: ks ++ trail ++ [.symbol .closeBracket]) (.list items)
  | emptyHash : Operand [.symbol .openBrace, .symbol .closeBrace] (.hash [])
  | hash {ks trail : List Kind} {pairs : List (Expr × Expr)} : Pairs ks pairs → Trail trail →
      Operand (.symbol .openBrace :: ks ++ trail ++ [.symbol .closeBrace]) (.hash pairs)
  | reference {ks : List Kind} {e : Expr} : Reference ks e → Operand ks e

/-- A reference: a name or an expression in parentheses, with attributes and indices. -/
inductive Reference : List Kind → Expr → Prop
  | name {word : String} : word ∉ constants.map Prod.fst → Reference [.name word] (.name word)
  | group {ks : List Kind} {e : Expr} : Expression ks e →
      Reference (.symbol .openParen :: ks ++ [.symbol .closeParen]) e
  | attribute {ks : List Kind} {object : Expr} (word : String) : Reference ks object →
      Reference (ks ++ [.symbol .dot, .name word]) (.attribute object word)
  | index {ks ks' : List Kind} {object index : Expr} : Reference ks object →
      Expression ks' index →
        Reference (ks ++ .symbol .openBracket :: ks' ++ [.symbol .closeBracket])
          (.index object index)

/-- The items of a list, with commas between them. -/
inductive Items : List Kind → List Expr → Prop
  | one {ks : List Kind} {e : Expr} : Expression ks e → Items ks [e]
  | more {ks ks' : List Kind} {items : List Expr} {e : Expr} : Items ks items →
      Expression ks' e → Items (ks ++ .symbol .comma :: ks') (items ++ [e])

/-- The pairs of a hash, with commas between them. -/
inductive Pairs : List Kind → List (Expr × Expr) → Prop
  | one {ks : List Kind} {pair : Expr × Expr} : Pair ks pair → Pairs ks [pair]
  | more {ks ks' : List Kind} {pairs : List (Expr × Expr)} {pair : Expr × Expr} :
      Pairs ks pairs → Pair ks' pair → Pairs (ks ++ .symbol .comma :: ks') (pairs ++ [pair])

/-- A key and its value. -/
inductive Pair : List Kind → Expr × Expr → Prop
  | mk {ks ks' : List Kind} {key value : Expr} : Key ks key → Expression ks' value →
      Pair (ks ++ .symbol .colon :: ks') (key, value)

/-- A key: a name, which stands for its text, a literal, or an expression in parentheses. -/
inductive Key : List Kind → Expr → Prop
  | name (word : String) : Key [.name word] (.string word)
  | string (value : String) : Key [.string value] (.string value)
  | integer (value : Int64) : Key [.integer value] (.integer value)
  | group {ks : List Kind} {e : Expr} : Expression ks e →
      Key (.symbol .openParen :: ks ++ [.symbol .closeParen]) e

end

theorem constant?_eq_some_iff {word : String} {e : Expr} :
    Expr.Reader.constant? word = some e ↔ (word, e) ∈ constants := by
  unfold Expr.Reader.constant? constants
  split
  · next h => subst h; simp [eq_comm]
  · split
    · next h => subst h; simp [eq_comm]
    · split
      · next h => rcases h with rfl | rfl <;> simp [eq_comm]
      · next h => simp_all

theorem constant?_eq_none_iff {word : String} :
    Expr.Reader.constant? word = none ↔ word ∉ constants.map Prod.fst := by
  rw [Option.eq_none_iff_forall_ne_some]
  simp only [ne_eq, constant?_eq_some_iff, List.mem_map, Prod.exists, exists_and_right,
    exists_eq_right, not_exists]

/-! ## Spellings -/

/-- Some tokens, all of which stand inside of tags. -/
def InnerRow (ks : List Kind) : Prop := ks ≠ [] ∧ ∀ k ∈ ks, k.IsInner

theorem innerRow_singleton {k : Kind} (h : k.IsInner) : InnerRow [k] := by
  simpa [InnerRow] using h

theorem innerRow_symbol (mark : Symbol) : InnerRow [.symbol mark] := innerRow_singleton trivial

theorem InnerRow.cons {ks : List Kind} (mark : Symbol) (h : InnerRow ks) :
    InnerRow (.symbol mark :: ks) := by
  simpa [InnerRow, Token.Kind.IsInner] using h.2

theorem InnerRow.append {ks ks' : List Kind} (h : InnerRow ks) (h' : InnerRow ks') :
    InnerRow (ks ++ ks') := by
  refine ⟨by simp [h.1], fun k mem => ?_⟩
  rcases List.mem_append.mp mem with mem | mem
  · exact h.2 k mem
  · exact h'.2 k mem

theorem InnerRow.append_trail {ks trail : List Kind} (h : InnerRow ks) (ht : Trail trail) :
    InnerRow (ks ++ trail) := by
  rcases ht with rfl | rfl
  · rwa [List.append_nil]
  · exact h.append (innerRow_symbol _)

mutual

theorem Expression.inner {ks : List Kind} {e : Expr} : Expression ks e → InnerRow ks
  | .operand h => h.inner
  | .compare _ left right => left.inner.append (right.inner.cons _)

theorem Operand.inner {ks : List Kind} {e : Expr} : Operand ks e → InnerRow ks
  | .string _ => innerRow_singleton trivial
  | .integer _ => innerRow_singleton trivial
  | .real _ => innerRow_singleton trivial
  | .constant _ => innerRow_singleton trivial
  | .emptyList => (innerRow_symbol _).cons _
  | .emptyHash => (innerRow_symbol _).cons _
  | .list items trail =>
      (items.inner.cons _).append_trail trail |>.append (innerRow_symbol _)
  | .hash pairs trail =>
      (pairs.inner.cons _).append_trail trail |>.append (innerRow_symbol _)
  | .reference h => h.inner

theorem Reference.inner {ks : List Kind} {e : Expr} : Reference ks e → InnerRow ks
  | .name _ => innerRow_singleton trivial
  | .group h => (h.inner.cons _).append (innerRow_symbol _)
  | .attribute _ object => object.inner.append (.cons .dot (innerRow_singleton trivial))
  | .index object index =>
      object.inner.append (index.inner.cons _) |>.append (innerRow_symbol _)

theorem Items.inner {ks : List Kind} {items : List Expr} : Items ks items → InnerRow ks
  | .one h => h.inner
  | .more before h => before.inner.append (h.inner.cons _)

theorem Pairs.inner {ks : List Kind} {pairs : List (Expr × Expr)} :
    Pairs ks pairs → InnerRow ks
  | .one h => h.inner
  | .more before h => before.inner.append (h.inner.cons _)

theorem Pair.inner {ks : List Kind} {pair : Expr × Expr} : Pair ks pair → InnerRow ks
  | .mk key value => key.inner.append (value.inner.cons _)

theorem Key.inner {ks : List Kind} {e : Expr} : Key ks e → InnerRow ks
  | .name _ => innerRow_singleton trivial
  | .string _ => innerRow_singleton trivial
  | .integer _ => innerRow_singleton trivial
  | .group h => (h.inner.cons _).append (innerRow_symbol _)

end

end Grammar

end SheetMarkup
