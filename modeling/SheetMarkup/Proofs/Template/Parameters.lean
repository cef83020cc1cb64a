import SheetMarkup.Proofs.Expr.Writing
import SheetMarkup.Proofs.Template.Constructs

/-!
# Written parameters

Nothing stands between the parameters in the tag of a directive. Each of them is the longest
expression that can be taken, so a list behind a name would be taken as an index of it where it can
be one. Every list of expressions can still be written so that it is split as it is meant, and then
just these expressions are bound to what the directive declares (`readParameters_written`).
-/

namespace SheetMarkup

open Reading
open Token (Kind kinds)

theorem Expr.WellFormed.derived_of_row {e : Expr} (h : e.WellFormed) {row : List Token}
    (spelled : kinds row = e.row) : Grammar.Expression (kinds row) e := by
  rw [spelled]
  exact h.derived

/-- Written expressions one after another are read one by one. -/
theorem expressionRow_of_wellFormed {es : List Expr} (h : ∀ e ∈ es, e.WellFormed)
    {row : List Token} (spelled : kinds row = es.flatMap Expr.row) : ExpressionRow row es := by
  induction es generalizing row with
  | nil =>
      cases List.map_eq_nil_iff.mp spelled
      exact .nil
  | cons e es ih =>
      have others : ∀ e' ∈ es, e'.WellFormed := by
        intro e' mem
        exact h e' (by simp [mem])
      obtain ⟨taken, more, rfl, first, rest⟩ := List.map_eq_append_iff.mp spelled
      exact .cons ((h e (by simp)).longest others first rest) (ih others rest)

/-- Expressions that are written one after another before the closer of a tag are read as just these
expressions, up to the closer. A directive takes the closer, and binds them to its parameters. -/
theorem readParameters_written {es : List Expr} (formed : ∀ e ∈ es, e.WellFormed)
    {row : List Token} (spelled : kinds row = es.flatMap Expr.row) (closed : Nat)
    (s : TokenStream) :
    collect (.closing .block) expressionItem expressionItem
        (s.prepend (row ++ [⟨.closing .block, closed⟩])) =
      .ok es (s.prepend [⟨.closing .block, closed⟩]) ∧
    ∀ (directive : Directive) (name : Token) (schema : Schema),
      Schema.ofList (directive.parameters name) = .ok schema →
      directive.readParameters name (s.prepend (row ++ [⟨.closing .block, closed⟩])) =
        ofExcept (schema.bind es) s := by
  have items := expressionRow_of_wellFormed formed spelled
  constructor
  · apply collect_expressions_eq_ok_iff.mpr
    exact ⟨row, TokenStream.prepend_append _ _ _, items, rfl⟩
  · intro directive name schema declared
    exact readParameters_prepend declared items closed s

/-- A cell whose index is a comparison that ends with a parenthesis, before the list of its
properties. -/
theorem readParameters_written_cell :
    let index : Expr := .compare .unequal (.attribute (.name "a") "b") (.list [])
    let properties : Expr := .list [.name "c", .hash [(.integer 1, .null)]]
    let row : List Token := List.map (⟨·, 2⟩)
      [.symbol .openParen, .symbol .openParen, .name "a", .symbol .closeParen, .symbol .dot,
        .name "b", .symbol .closeParen, .symbol .unequal, .symbol .openParen, .symbol .openBracket,
        .symbol .closeBracket, .symbol .closeParen, .symbol .openBracket, .name "c",
        .symbol .comma, .symbol .openBrace, .symbol .openParen, .integer 1, .symbol .closeParen,
        .symbol .colon, .name "null", .symbol .comma, .symbol .closeBrace, .symbol .comma,
        .symbol .closeBracket]
    (Element.cell.directive .empty).readParameters ⟨.name "cell", 2⟩
        ⟨row ++ [⟨.closing .block, 3⟩, ⟨.text "x", 4⟩], 4⟩ =
      .ok ⟨[("index", index), ("properties", properties)], by decide⟩ ⟨[⟨.text "x", 4⟩], 4⟩ := by
  intro index properties row
  have identifier : ∀ (name : String) (c : Char), name.toList = [c] →
      Lexeme.isNameStart c = true → IsIdentifier name := by
    intro name c single start
    exact ⟨c, [], single, start, by simp⟩
  have indexFormed : index.WellFormed := by
    apply Expr.WellFormed.comparison
    · have object : (Expr.name "a").WellFormed := .name (identifier "a" 'a' rfl rfl) (by decide)
      exact .attributeOf object (identifier "b" 'b' rfl rfl)
    · exact .list (by simp)
  have propertiesFormed : properties.WellFormed := by
    refine .list (List.forall_mem_cons.mpr ⟨?_, List.forall_mem_singleton.mpr ?_⟩)
    · exact .name (identifier "c" 'c' rfl rfl) (by decide)
    · exact .hash (by simpa using .integer 1) (by simpa using .null)
  have formed : ∀ e ∈ [index, properties], e.WellFormed := by
    simpa using ⟨indexFormed, propertiesFormed⟩
  have spelled : kinds row = [index, properties].flatMap Expr.row := by decide
  obtain ⟨-, bound⟩ := readParameters_written formed spelled 3 ⟨[⟨.text "x", 4⟩], 4⟩
  exact bound (Element.cell.directive .empty) ⟨.name "cell", 2⟩
    ⟨Element.cell.parameters, by decide⟩ rfl

end SheetMarkup
