import SheetMarkup.Proofs.Expr.Writing

/-!
# The values of written tokens

What tokens that can be written spell is well-formed (`Expression.wellFormed`). Together with
`Expr.WellFormed.derived` this says that the well-formed expressions are exactly those that
something written stands for (`Expr.wellFormed_iff`).
-/

namespace SheetMarkup

namespace Grammar

open Token (Kind)

theorem wellFormed_of_mem_constants {word : String} {e : Expr} (h : (word, e) ∈ constants) :
    e.WellFormed := by
  simp only [constants, List.mem_cons, Prod.mk.injEq, List.not_mem_nil, or_false] at h
  rcases h with ⟨-, rfl⟩ | ⟨-, rfl⟩ | ⟨-, rfl⟩ | ⟨-, rfl⟩
  · exact .bool true
  · exact .bool false
  · exact .null
  · exact .null

mutual

theorem Expression.wellFormed {ks : List Kind} {e : Expr} (writable : ∀ k ∈ ks, k.Writable) :
    Expression ks e → e.WellFormed
  | .operand h => h.wellFormed writable
  | .compare comparison left right =>
      .comparison comparison (left.wellFormed fun k mem => writable k (by simp [mem]))
        (right.wellFormed fun k mem => writable k (by simp [mem]))

theorem Operand.wellFormed {ks : List Kind} {e : Expr} (writable : ∀ k ∈ ks, k.Writable) :
    Operand ks e → e.WellFormed
  | .string value => .string value
  | .integer value => .integer value
  | .real _ => .real (writable _ (by simp))
  | .constant mem => wellFormed_of_mem_constants mem
  | .emptyList => .list (by simp)
  | .list items _ => .list (items.wellFormed fun k mem => writable k (by simp [mem]))
  | .emptyHash => .hash (by simp) (by simp)
  | .hash pairs _ =>
      have each := pairs.wellFormed fun k mem => writable k (by simp [mem])
      .hash (fun pair mem => (each pair mem).1) fun pair mem => (each pair mem).2
  | .reference h => h.wellFormed writable

theorem Reference.wellFormed {ks : List Kind} {e : Expr} (writable : ∀ k ∈ ks, k.Writable) :
    Reference ks e → e.WellFormed
  | .name free => .name (writable (.name _) (by simp)) free
  | .group h => h.wellFormed fun k mem => writable k (by simp [mem])
  | .attribute word object =>
      .attributeOf (object.wellFormed fun k mem => writable k (by simp [mem]))
        (writable (.name word) (by simp))
  | .index object index =>
      .indexOf (object.wellFormed fun k mem => writable k (by simp [mem]))
        (index.wellFormed fun k mem => writable k (by simp [mem]))

theorem Items.wellFormed {ks : List Kind} {items : List Expr}
    (writable : ∀ k ∈ ks, k.Writable) : Items ks items → ∀ e ∈ items, e.WellFormed
  | .one h => by simpa using h.wellFormed writable
  | .more before h => by
      have earlier := before.wellFormed fun k mem => writable k (by simp [mem])
      have last := h.wellFormed fun k mem => writable k (by simp [mem])
      simpa [or_imp, forall_and] using And.intro earlier last

theorem Pairs.wellFormed {ks : List Kind} {pairs : List (Expr × Expr)}
    (writable : ∀ k ∈ ks, k.Writable) :
    Pairs ks pairs → ∀ pair ∈ pairs, pair.1.WellFormed ∧ pair.2.WellFormed
  | .one h => by
      intro pair mem
      cases List.mem_singleton.mp mem
      exact h.wellFormed writable
  | .more before h => by
      intro pair mem
      rcases List.mem_append.mp mem with mem | mem
      · exact before.wellFormed (fun k mem => writable k (by simp [mem])) pair mem
      · cases List.mem_singleton.mp mem
        exact h.wellFormed fun k mem => writable k (by simp [mem])

theorem Pair.wellFormed {ks : List Kind} {pair : Expr × Expr}
    (writable : ∀ k ∈ ks, k.Writable) : Pair ks pair → pair.1.WellFormed ∧ pair.2.WellFormed
  | .mk key value =>
      ⟨key.wellFormed fun k mem => writable k (by simp [mem]),
        value.wellFormed fun k mem => writable k (by simp [mem])⟩

theorem Key.wellFormed {ks : List Kind} {e : Expr} (writable : ∀ k ∈ ks, k.Writable) :
    Key ks e → e.WellFormed
  | .name word => .string word
  | .string value => .string value
  | .integer value => .integer value
  | .group h => h.wellFormed fun k mem => writable k (by simp [mem])

end

end Grammar

/-- The well-formed expressions are those that can be written. -/
theorem Expr.wellFormed_iff {e : Expr} :
    e.WellFormed ↔ ∃ ks, (∀ k ∈ ks, k.Writable) ∧ Grammar.Expression ks e := by
  constructor
  · intro h
    exact ⟨e.row, h.balanced.1, h.derived⟩
  · rintro ⟨ks, writable, derived⟩
    exact derived.wellFormed writable

end SheetMarkup
