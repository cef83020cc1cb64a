import SheetMarkup.Proofs.Expr.Display
import SheetMarkup.Proofs.Lexeme.Munch
import SheetMarkup.Proofs.Source.Closers
import SheetMarkup.Proofs.Source.Lone
import SheetMarkup.Proofs.Template.Readings

/-!
# Shown expressions read back

What is shown of an expression can be written into a tag. It is read as the same expression if its
strings have no characters that only a code shows, the keys of its hashes are strings and integers,
and attributes and indices stand behind references and comparisons alone (`Faithful`).

The shown text is read lexeme by lexeme. Where it ends, no lexeme can go on (`Breaks`), so a text
that is put together from parts spells the tokens of the parts (`Spells`), and the grammar derives
the expression from them (`Faithful.exists_shownAs`). As expressions close the braces that they open
(`Expression.bracesClosed`), the search for the closer passes all of them. Main result:
`read_display`.
-/

namespace SheetMarkup

open Grammar
open Token (Kind kinds)

/-! ## Expressions close their braces -/

namespace Token.Kind

/-- Tokens that close the braces they open, and no others. -/
def BracesClosed (ks : List Kind) : Prop := ∀ before, ks.foldlM braces? before = some before

namespace BracesClosed

variable {ks ks' : List Kind}

theorem append (h : BracesClosed ks) (h' : BracesClosed ks') : BracesClosed (ks ++ ks') := by
  intro before
  rw [List.foldlM_append, h before]
  exact h' before

theorem symbol {mark : Symbol} (plain : mark ∉ [.openBrace, .closeBrace]) :
    BracesClosed [.symbol mark] := by
  intro before
  cases mark <;> first | rfl | exact absurd plain (by decide)

theorem cons {mark : Symbol} (plain : mark ∉ [.openBrace, .closeBrace]) (h : BracesClosed ks) :
    BracesClosed (.symbol mark :: ks) :=
  (symbol plain).append h

/-- Parentheses, or brackets, around tokens. -/
theorem enclosed {first last : Symbol} (plain : first ∉ [.openBrace, .closeBrace])
    (plain' : last ∉ [.openBrace, .closeBrace]) (h : BracesClosed ks) :
    BracesClosed (.symbol first :: ks ++ [.symbol last]) :=
  (cons plain h).append (symbol plain')

theorem braced (h : BracesClosed ks) :
    BracesClosed (.symbol .openBrace :: ks ++ [.symbol .closeBrace]) := by
  intro before
  have inside : (ks ++ [Kind.symbol .closeBrace]).foldlM braces? (before + 1) = some before := by
    rw [List.foldlM_append, h (before + 1)]
    rfl
  exact inside

theorem append_trail {trail : List Kind} (h : BracesClosed ks) (ht : Trail trail) :
    BracesClosed (ks ++ trail) := by
  rcases ht with rfl | rfl
  · rwa [List.append_nil]
  · exact h.append (symbol (by decide))

end BracesClosed

end Token.Kind

namespace Grammar

open Token.Kind (BracesClosed)

theorem symbol_notMem_braces (comparison : Comparison) :
    comparison.symbol ∉ [Symbol.openBrace, .closeBrace] := by
  cases comparison <;> decide

mutual

theorem Expression.bracesClosed {ks : List Kind} {e : Expr} : Expression ks e → BracesClosed ks
  | .operand h => h.bracesClosed
  | .compare comparison left right =>
      left.bracesClosed.append (right.bracesClosed.cons (symbol_notMem_braces comparison))

theorem Operand.bracesClosed {ks : List Kind} {e : Expr} : Operand ks e → BracesClosed ks
  | .string _ => fun _ => rfl
  | .integer _ => fun _ => rfl
  | .real _ => fun _ => rfl
  | .constant _ => fun _ => rfl
  | .emptyList => fun _ => rfl
  | .list items trail =>
      (items.bracesClosed.append_trail trail).enclosed (by decide) (by decide)
  | .emptyHash => fun _ => rfl
  | .hash pairs trail => (pairs.bracesClosed.append_trail trail).braced
  | .reference h => h.bracesClosed

theorem Reference.bracesClosed {ks : List Kind} {e : Expr} : Reference ks e → BracesClosed ks
  | .name _ => fun _ => rfl
  | .group h => h.bracesClosed.enclosed (by decide) (by decide)
  | .attribute _ object => object.bracesClosed.append fun _ => rfl
  | .index object index => by
      rw [List.append_assoc]
      exact object.bracesClosed.append (index.bracesClosed.enclosed (by decide) (by decide))

theorem Items.bracesClosed {ks : List Kind} {items : List Expr} : Items ks items → BracesClosed ks
  | .one h => h.bracesClosed
  | .more before h => before.bracesClosed.append (h.bracesClosed.cons (by decide))

theorem Pairs.bracesClosed {ks : List Kind} {pairs : List (Expr × Expr)} :
    Pairs ks pairs → BracesClosed ks
  | .one h => h.bracesClosed
  | .more before h => before.bracesClosed.append (h.bracesClosed.cons (by decide))

theorem Pair.bracesClosed {ks : List Kind} {pair : Expr × Expr} : Pair ks pair → BracesClosed ks
  | .mk key value => key.bracesClosed.append (value.bracesClosed.cons (by decide))

theorem Key.bracesClosed {ks : List Kind} {e : Expr} : Key ks e → BracesClosed ks
  | .name _ => fun _ => rfl
  | .string _ => fun _ => rfl
  | .integer _ => fun _ => rfl
  | .group h => h.bracesClosed.enclosed (by decide) (by decide)

end

end Grammar

/-! ## Texts and the tokens in them -/

/-- A character that is shown as it is between double quotes, or with a short escape that literals
have as well. -/
def Text.Quotable (c : Char) : Prop := quoteChar c = [c] ∨ c ∈ ['"', '\\', '\n', '\r', '\t']

namespace Lexeme

/-- A text that is read as lexemes of these kinds, with any blanks beside them. -/
def ReadsAs (cs : List Char) (ks : List Kind) : Prop :=
  ∃ row trail, readAll cs = .ok (row, trail) ∧ row.map (fun entry => entry.2.kind) = ks

namespace ReadsAs

variable {cs rest : List Char} {ks : List Kind}

theorem of_isBlank (blanks : ∀ c ∈ cs, Text.isBlank c = true) : ReadsAs cs [] :=
  ⟨[], cs, readAll_blanks blanks, rfl⟩

theorem blank {c : Char} (isBlank : Text.isBlank c = true) (h : ReadsAs cs ks) :
    ReadsAs (c :: cs) ks := by
  obtain ⟨row, trail, read, rfl⟩ := h
  cases readAll_eq_ok_iff.mp read with
  | done blanks => exact .of_isBlank (List.forall_mem_cons.mpr ⟨isBlank, blanks⟩)
  | more blanks first others =>
      -- the blank stands before the same lexeme as the others
      have munched := Munched.more (List.forall_mem_cons.mpr ⟨isBlank, blanks⟩) first others
      exact ⟨_, _, readAll_eq_ok_iff.mpr munched, rfl⟩

theorem cons {lexeme : Lexeme} (first : read cs = .ok (lexeme, rest)) (others : ReadsAs rest ks) :
    ReadsAs cs (lexeme.kind :: ks) := by
  obtain ⟨row, trail, read, rfl⟩ := others
  have munched := Munched.more (List.forall_mem_nil _) (read_eq_ok_iff.mp first)
    (readAll_eq_ok_iff.mp read)
  exact ⟨_, _, readAll_eq_ok_iff.mpr munched, rfl⟩

end ReadsAs

/-! ## Single lexemes -/

theorem read_mark {c : Char} {mark : Symbol} (found : Symbol.ofChar? c = some mark)
    (rest : List Char) : read (c :: rest) = .ok (⟨[c], .symbol mark⟩, rest) :=
  read_eq_ok_iff.mpr
    ⟨.mark, (longest_mark_iff found).mpr ⟨rfl, rfl⟩, mark, rfl, ofChar?_eq_some_iff.mp found⟩

theorem read_comparison (comparison : Comparison) (rest : List Char) :
    read (comparison.symbol.spelling.toList ++ ' ' :: rest) =
      .ok (⟨comparison.symbol.spelling.toList, .symbol comparison.symbol⟩, ' ' :: rest) := by
  cases comparison <;> rfl

theorem Literal.decodes_quoted {cs : List Char} (quotable : ∀ c ∈ cs, Text.Quotable c) :
    Decodes '"' (cs.flatMap Text.quoteChar) cs := by
  induction cs with
  | nil => exact .nil
  | cons c cs ih =>
      obtain ⟨first, others⟩ := List.forall_mem_cons.mp quotable
      rw [List.flatMap_cons]
      rcases first with same | mem
      · have other : ∀ d, Text.quoteChar d ≠ [d] → c ≠ d := by
          rintro d escaped rfl
          exact escaped same
        rw [same]
        exact .plain (other '"' (by decide)) (other '\\' (by decide)) (ih others)
      · simp only [List.mem_cons, List.not_mem_nil, or_false] at mem
        rcases mem with rfl | rfl | rfl | rfl | rfl <;> exact .escape (by decide) (ih others)

/-- A quoted text is read as a literal for the text. -/
theorem read_quoted {value : String} (quotable : ∀ c ∈ value.toList, Text.Quotable c)
    (rest : List Char) :
    read (Text.quoted value.toList ++ rest) =
      .ok (⟨Text.quoted value.toList, .string value⟩, rest) := by
  have writes : Literal.Writes (Text.quoted value.toList) value.toList :=
    ⟨'"', by decide, _, rfl, Literal.decodes_quoted quotable⟩
  refine read_eq_ok_iff.mpr ⟨.literal, ?_, value.toList, by rw [String.ofList_toList], writes⟩
  exact (Literal.longest_iff List.mem_cons_self).mpr ⟨rfl, _, writes⟩

end Lexeme

namespace Expr

open Lexeme (ReadsAs)

/-! ## Spelled tokens -/

/-- A text that is read as tokens of these kinds wherever a shown expression could end behind
it. -/
def Spells (text : List Char) (ks : List Kind) : Prop :=
  ∀ rest more, Breaks rest → ReadsAs rest more → ReadsAs (text ++ rest) (ks ++ more)

namespace Spells

variable {text text' : List Char} {ks ks' : List Kind}

theorem nil : Spells [] [] := fun _ _ _ read => read

theorem of_read {kind : Kind}
    (h : ∀ rest, Breaks rest → Lexeme.read (text ++ rest) = .ok (⟨text, kind⟩, rest)) :
    Spells text [kind] :=
  fun rest _ breaks read => .cons (h rest breaks) read

theorem append (h : Spells text ks) (h' : Spells text' ks')
    (breaks : ∀ rest, Breaks (text' ++ rest)) : Spells (text ++ text') (ks ++ ks') := by
  intro rest more behind read
  rw [List.append_assoc, List.append_assoc]
  exact h _ _ (breaks rest) (h' rest more behind read)

theorem mark {c : Char} {mark : Symbol} (found : Symbol.ofChar? c = some mark)
    (h : Spells text ks) : Spells (c :: text) (.symbol mark :: ks) :=
  fun rest more breaks read => .cons (Lexeme.read_mark found _) (h rest more breaks read)

theorem blank (h : Spells text ks) : Spells (' ' :: text) ks :=
  fun rest more breaks read => .blank rfl (h rest more breaks read)

theorem comparison (comparison : Comparison) (h : Spells text ks) :
    Spells (comparison.spelling ++ text) (.symbol comparison.symbol :: ks) := by
  intro rest more breaks read
  have shape : comparison.spelling ++ text ++ rest =
      ' ' :: (comparison.symbol.spelling.toList ++ ' ' :: (text ++ rest)) := by
    cases comparison <;> rfl
  rw [shape]
  exact .blank rfl (.cons (Lexeme.read_comparison comparison _) (h.blank rest more breaks read))

/-- Something ends with a closing bracket behind it. -/
theorem closed (h : Spells text ks) {c : Char} {mark : Symbol}
    (found : Symbol.ofChar? c = some mark) (stop : c ∈ stops) :
    Spells (text ++ [c]) (ks ++ [.symbol mark]) :=
  h.append (.mark found .nil) fun _ => .inl (stops_cons stop _)

end Spells

/-- A row of things that are spelled, with commas between them. -/
theorem exists_spells_separated {α : Type} {code : α → List Char} (One : List Kind → α → Prop)
    (Many : List Kind → List α → Prop) (one : ∀ {ks a}, One ks a → Many ks [a])
    (more : ∀ {ks ks' as a}, Many ks as → One ks' a →
      Many (ks ++ .symbol .comma :: ks') (as ++ [a]))
    {as : List α} (ne : as ≠ []) (each : ∀ a ∈ as, ∃ ks, One ks a ∧ Spells (code a) ks) :
    ∃ ks, Many ks as ∧ Spells (separated code as) ks := by
  induction as using List.reverseRecOn with
  | nil => exact absurd rfl ne
  | append_singleton as a ih =>
      obtain ⟨ks', last, spells'⟩ := each a (by simp)
      cases as with
      | nil => exact ⟨ks', one last, by simpa [separated] using spells'⟩
      | cons b bs =>
          obtain ⟨ks, many, spells⟩ := ih (by simp) fun c mem => each c (List.mem_append_left _ mem)
          refine ⟨ks ++ .symbol .comma :: ks', more many last, ?_⟩
          have shape : separated code (b :: bs ++ [a]) =
              separated code (b :: bs) ++ ',' :: ' ' :: code a := by simp [separated]
          rw [shape]
          exact spells.append (spells'.blank.mark rfl) fun _ => .inl (stops_cons (by decide) _)

/-! ## Expressions that read back -/

/-- The objects that attributes and indices are read behind: references, and comparisons, which are
shown in parentheses. -/
def IsObject : Expr → Prop
  | .name _ | .attribute _ _ | .index _ _ | .compare _ _ _ => True
  | .string _ | .integer _ | .real _ | .bool _ | .null | .array _ => False

/-- The keys of hashes that are literals. -/
def IsKey : Expr → Prop
  | .string _ | .integer _ => True
  | _ => False

/-- The expressions that read back from what is shown of them. Literals do not know all escapes of
shown texts, keys in parentheses are shown without them, and so are objects. -/
inductive Faithful : Expr → Prop
  | string {value : String} : (∀ c ∈ value.toList, Text.Quotable c) → Faithful (.string value)
  | integer (value : Int64) : Faithful (.integer value)
  | real {written : String} : (Kind.real written).Writable → Faithful (.real written)
  | bool (value : Bool) : Faithful (.bool value)
  | null : Faithful .null
  | name {word : String} : IsIdentifier word → word ∉ constants.map Prod.fst →
      Faithful (.name word)
  | list {items : List Expr} : (∀ e ∈ items, e.Faithful) → Faithful (.list items)
  | hash {pairs : List (Expr × Expr)} : (∀ pair ∈ pairs, pair.1.IsKey) →
      (∀ pair ∈ pairs, pair.1.Faithful) → (∀ pair ∈ pairs, pair.2.Faithful) →
      Faithful (.hash pairs)
  | attributeOf {object : Expr} {word : String} : object.IsObject → object.Faithful →
      IsIdentifier word → Faithful (.attribute object word)
  | indexOf {object index : Expr} : object.IsObject → object.Faithful → index.Faithful →
      Faithful (.index object index)
  | comparison {left right : Expr} (comparison : Comparison) : left.Faithful → right.Faithful →
      Faithful (.compare comparison left right)

theorem Faithful.wellFormed {e : Expr} (h : e.Faithful) : e.WellFormed := by
  induction h with
  | string _ => exact .string _
  | integer value => exact .integer value
  | real writable => exact .real writable
  | bool value => exact .bool value
  | null => exact .null
  | name identifier free => exact .name identifier free
  | list _ ih => exact .list ih
  | hash _ _ _ keys values => exact .hash keys values
  | attributeOf _ _ identifier ih => exact .attributeOf ih identifier
  | indexOf _ _ _ ih ih' => exact .indexOf ih ih'
  | comparison comparison _ _ ih ih' => exact .comparison comparison ih ih'

/-! ## Tokens of shown expressions -/

/-- Tokens that an expression is derived from, as a reference if it is an object, and that are read
off what is shown of it. -/
structure ShownAs (e : Expr) (ks : List Kind) : Prop where
  operand : Operand ks e
  reference : e.IsObject → Reference ks e
  spells : Spells e.spelling ks

theorem ShownAs.of_reference {e : Expr} {ks : List Kind} (h : Reference ks e)
    (spells : Spells e.spelling ks) : ShownAs e ks :=
  ⟨.reference h, fun _ => h, spells⟩

theorem spells_word {word : String} (h : IsIdentifier word) :
    Spells word.toList [.name word] :=
  .of_read fun _ breaks => Lexeme.read_identifier h breaks.isNameChar_eq_false

theorem spells_number {cs : List Char} (h : Lexeme.Number.IsNumeral cs) :
    Spells cs [Lexeme.Number.kind cs] :=
  .of_read fun _ breaks => Lexeme.read_number h breaks.ends

theorem shownAs_string {value : String} (quotable : ∀ c ∈ value.toList, Text.Quotable c) :
    ShownAs (.string value) [.string value] := by
  refine ⟨.string value, False.elim, ?_⟩
  rw [spelling]
  exact .of_read fun rest _ => Lexeme.read_quoted quotable rest

theorem shownAs_integer (value : Int64) : ShownAs (.integer value) [.integer value] := by
  have spells := spells_number (Lexeme.Number.isNumeral_signedDecimal value.toInt)
  rw [Lexeme.Number.kind, Text.readInt64?_signedDecimal] at spells
  refine ⟨.integer value, False.elim, ?_⟩
  rw [spelling]
  exact spells

theorem shownAs_real {written : String} (writable : (Kind.real written).Writable) :
    ShownAs (.real written) [.real written] := by
  have spells := spells_number writable.1
  rw [Lexeme.Number.kind, writable.2, String.ofList_toList] at spells
  refine ⟨.real written, False.elim, ?_⟩
  rw [spelling]
  exact spells

/-- A literal that is shown as a word. -/
theorem shownAs_constant (word : String) {e : Expr} (mem : (word, e) ∈ constants)
    (shown : e.spelling = word.toList) (other : ¬ e.IsObject) : ShownAs e [.name word] := by
  refine ⟨.constant mem, fun object => absurd object other, ?_⟩
  rw [shown]
  exact spells_word (isIdentifier_of_mem_constants (List.mem_map_of_mem mem))

theorem shownAs_name {word : String} (identifier : IsIdentifier word)
    (free : word ∉ constants.map Prod.fst) : ShownAs (.name word) [.name word] := by
  refine .of_reference (.name free) ?_
  rw [spelling]
  exact spells_word identifier

theorem separated_map {α β : Type} (code : β → List Char) (f : α → β) (as : List α) :
    separated code (as.map f) = separated (fun a => code (f a)) as := by
  cases as with
  | nil => rfl
  | cons a as => simp [separated, List.flatMap_map]

theorem exists_shownAs_list {items : List Expr} (h : ∀ item ∈ items, ∃ ks, ShownAs item ks) :
    ∃ ks, ShownAs (.list items) ks := by
  by_cases ne : items = []
  · subst ne
    refine ⟨_, .emptyList, False.elim, ?_⟩
    rw [spelling_list]
    exact .mark rfl (.mark rfl .nil)
  · have each : ∀ item ∈ items, ∃ ks, Expression ks item ∧
        Spells (Entry.spelling (.item item)) ks := by
      intro item mem
      obtain ⟨ks, shown⟩ := h item mem
      refine ⟨ks, .operand shown.operand, ?_⟩
      rw [Entry.spelling]
      exact shown.spells
    obtain ⟨ks, derived, spells⟩ := exists_spells_separated Expression Items .one .more ne each
    refine ⟨_, .list derived (.inl rfl), False.elim, ?_⟩
    rw [spelling_list, spellings_eq, separated_map, List.append_nil]
    exact .mark rfl (spells.closed rfl (by decide))

/-- A literal key is derived from the tokens that are read off it. -/
theorem exists_key {key : Expr} (isKey : key.IsKey) (faithful : key.Faithful) :
    ∃ ks, Key ks key ∧ Spells key.spelling ks := by
  cases faithful with
  | string quotable => exact ⟨_, .string _, (shownAs_string quotable).spells⟩
  | integer value => exact ⟨_, .integer value, (shownAs_integer value).spells⟩
  | _ => exact isKey.elim

theorem exists_shownAs_hash {pairs : List (Expr × Expr)} (isKey : ∀ pair ∈ pairs, pair.1.IsKey)
    (keys : ∀ pair ∈ pairs, pair.1.Faithful) (values : ∀ pair ∈ pairs, ∃ ks, ShownAs pair.2 ks) :
    ∃ ks, ShownAs (.hash pairs) ks := by
  by_cases ne : pairs = []
  · -- a hash without pairs is a list without items
    subst ne
    exact exists_shownAs_list (List.forall_mem_nil _)
  · have each : ∀ pair ∈ pairs, ∃ ks, Pair ks pair ∧
        Spells (Entry.spelling (.pair pair.1 pair.2)) ks := by
      intro pair mem
      obtain ⟨ks, derived, spells⟩ := exists_key (isKey pair mem) (keys pair mem)
      obtain ⟨ks', shown⟩ := values pair mem
      refine ⟨_, .mk derived (.operand shown.operand), ?_⟩
      rw [Entry.spelling, List.append_assoc]
      exact spells.append (shown.spells.blank.mark rfl) fun _ => .inl (stops_cons (by decide) _)
    obtain ⟨ks, derived, spells⟩ := exists_spells_separated Pair Pairs .one .more ne each
    refine ⟨_, .hash derived (.inl rfl), False.elim, ?_⟩
    rw [spelling_hash ne, spellings_eq, separated_map, List.append_nil]
    exact .mark rfl (spells.closed rfl (by decide))

theorem ShownAs.attribute {object : Expr} {word : String} {ks : List Kind}
    (h : ShownAs object ks) (isObject : object.IsObject) (identifier : IsIdentifier word) :
    ShownAs (.attribute object word) (ks ++ [.symbol .dot, .name word]) := by
  refine .of_reference (.attribute word (h.reference isObject)) ?_
  rw [spelling]
  refine h.spells.append ((spells_word identifier).mark rfl) fun rest => ?_
  exact .inr ⟨.attributeOf word, rest, .attributeOf identifier, rfl⟩

theorem ShownAs.index {object index : Expr} {ks ks' : List Kind} (h : ShownAs object ks)
    (isObject : object.IsObject) (h' : ShownAs index ks') (formed : index.WellFormed) :
    ShownAs (.index object index)
      (ks ++ .symbol .openBracket :: ks' ++ [.symbol .closeBracket]) := by
  refine .of_reference (.index (h.reference isObject) (.operand h'.operand)) ?_
  have bracket : Spells ('[' :: index.spelling ++ [']'])
      (.symbol .openBracket :: ks' ++ [Kind.symbol .closeBracket]) :=
    .mark rfl (h'.spells.closed rfl (by decide))
  rw [spelling, List.append_assoc, List.append_assoc]
  refine h.spells.append bracket fun rest => ?_
  exact .inr ⟨.indexOf index, rest, .indexOf formed, rfl⟩

theorem ShownAs.compare {left right : Expr} {ks ks' : List Kind} (comparison : Comparison)
    (h : ShownAs left ks) (h' : ShownAs right ks') :
    ShownAs (.compare comparison left right)
      (.symbol .openParen :: (ks ++ .symbol comparison.symbol :: ks') ++
        [.symbol .closeParen]) := by
  refine .of_reference (.group (.compare comparison (.operand h.operand) h'.operand)) ?_
  have operands : Spells (left.spelling ++ (comparison.spelling ++ right.spelling))
      (ks ++ .symbol comparison.symbol :: ks') := by
    refine h.spells.append (h'.spells.comparison comparison) fun rest => .inl ?_
    cases comparison <;> exact stops_cons (by decide) _
  have shape : (Expr.compare comparison left right).spelling =
      '(' :: (left.spelling ++ (comparison.spelling ++ right.spelling) ++ [')']) := by
    rw [spelling]
    simp
  rw [shape]
  exact .mark rfl (operands.closed rfl (by decide))

/-- What is shown of a faithful expression is read as tokens from which it is derived. -/
theorem Faithful.exists_shownAs {e : Expr} (h : e.Faithful) : ∃ ks, ShownAs e ks := by
  induction h with
  | string quotable => exact ⟨_, shownAs_string quotable⟩
  | integer value => exact ⟨_, shownAs_integer value⟩
  | real writable => exact ⟨_, shownAs_real writable⟩
  | bool value =>
      cases value with
      | true => exact ⟨_, shownAs_constant "true" (by simp [constants]) (by rw [spelling]) id⟩
      | false => exact ⟨_, shownAs_constant "false" (by simp [constants]) (by rw [spelling]) id⟩
  | null => exact ⟨_, shownAs_constant "null" (by simp [constants]) (by rw [spelling]) id⟩
  | name identifier free => exact ⟨_, shownAs_name identifier free⟩
  | list _ ih => exact exists_shownAs_list ih
  | hash isKey keys _ _ ih => exact exists_shownAs_hash isKey keys ih
  | attributeOf isObject _ identifier ih =>
      obtain ⟨ks, shown⟩ := ih
      exact ⟨_, shown.attribute isObject identifier⟩
  | indexOf isObject _ index ih ih' =>
      obtain ⟨ks, shown⟩ := ih
      obtain ⟨ks', shown'⟩ := ih'
      exact ⟨_, shown.index isObject shown' index.wellFormed⟩
  | comparison comparison _ _ ih ih' =>
      obtain ⟨ks, shown⟩ := ih
      obtain ⟨ks', shown'⟩ := ih'
      exact ⟨_, shown.compare comparison shown'⟩

/-! ## Reading back -/

/-- Lexemes with matching braces, alone in a tag that has no minus sign, are the tokens between the
delimiters. -/
theorem exists_tokenize_eq {form : TagForm} {x trail : List Char}
    {row : List (List Char × Lexeme)} (read : Lexeme.readAll x = .ok (row, trail))
    (matched : Kind.BracesMatch (row.map fun entry => entry.2.kind))
    (noDash : Tag.splitDash (x ++ form.closer.toList) = (false, x ++ form.closer.toList)) :
    ∃ closing eof,
      tokenize (String.ofList (form.opener.toList ++ (x ++ form.closer.toList))) =
        .ok (⟨.opening form, 1⟩ :: Lexeme.tokens 1 row ++ [closing, eof]) ∧
      closing.kind = .closing form ∧ eof.kind = .eof := by
  have found := splitCloser?_spelled form read matched false []
  have ends := splitEndDash_spelled read false
  simp only [Tag.dash, Bool.false_eq_true, if_false, List.append_nil] at found ends
  have tag : Tag.read? (.tag form) (x ++ form.closer.toList) =
      some (⟨.tag form, false, x, false⟩, []) := by
    simp only [Tag.read?, noDash, found, ends, Option.bind_eq_bind, Option.bind_some]
    rfl
  have inner : (⟨.tag form, false, x, false⟩ : Tag).tokens 1 =
      .ok (⟨.opening form, 1⟩ :: Lexeme.tokens 1 row ++
        [⟨.closing form, 1 + Text.lineFeeds x⟩]) := by
    simp only [Tag.tokens, read]
  have whole := tokenize_lone tag inner
  rw [List.append_assoc] at whole
  exact ⟨_, _, whole, rfl, rfl⟩

/-- Tokens that an expression is derived from are read as the expression up to the closing delimiter
behind them. -/
theorem expression_eq_ok_of_derived {e : Expr} {inner : List Token} {closing eof : Token}
    {form : TagForm} (derived : Expression (kinds inner) e) (ends : closing.kind = .closing form)
    (isEof : eof.kind = .eof) :
    Reading.expression (.ofList (inner ++ [closing, eof])) = .ok e (.ofList [closing, eof]) := by
  obtain ⟨_, line⟩ := closing
  obtain ⟨_, last⟩ := eof
  cases ends
  cases isEof
  have behind : TokenStream.ofList [⟨.closing form, line⟩, ⟨.eof, last⟩] =
      TokenStream.prepend [⟨.closing form, line⟩] ⟨[], last⟩ := rfl
  have whole : TokenStream.ofList (inner ++ [⟨.closing form, line⟩] ++ [⟨.eof, last⟩]) =
      .prepend inner (.ofList [⟨.closing form, line⟩, ⟨.eof, last⟩]) :=
    TokenStream.ofList_append_eof _ _
  rw [List.append_assoc, behind] at whole
  rw [behind]
  -- the closing delimiter is in no expression, so what stands before it is the longest one
  exact Reading.expression_closing_iff.mpr ⟨inner, whole, derived⟩

/-- What is shown of a faithful expression reads back from an output tag with a blank on either
side: between the delimiters of the tag stand tokens from which the expression is read, up to the
closing delimiter. -/
theorem read_display {e : Expr} (faithful : e.Faithful) :
    ∃ opening inner closing eof,
      tokenize ("\x7b\x7b " ++ e.display ++ " \x7d\x7d") =
          .ok (opening :: inner ++ [closing, eof]) ∧
        opening.kind = .opening .output ∧ closing.kind = .closing .output ∧ eof.kind = .eof ∧
        Reading.expression (.ofList (inner ++ [closing, eof])) =
          .ok e (.ofList [closing, eof]) := by
  obtain ⟨ks, shown⟩ := faithful.exists_shownAs
  have reads : ReadsAs (' ' :: (e.spelling ++ [' '])) ks := by
    have behind : ReadsAs [' '] [] := .of_isBlank (List.forall_mem_singleton.mpr rfl)
    simpa using shown.spells.blank [' '] [] (.inl (stops_cons (by decide) [])) behind
  obtain ⟨row, trail, read, rfl⟩ := reads
  have derived : Expression (kinds (Lexeme.tokens 1 row)) e := by
    rw [Tag.kinds_tokens]
    exact .operand shown.operand
  have matched : Kind.BracesMatch (row.map fun entry => entry.2.kind) :=
    shown.operand.bracesClosed 0
  -- behind the blank, a minus sign at the front of a number is not one of the tag
  have noDash : Tag.splitDash (' ' :: (e.spelling ++ [' ']) ++ TagForm.output.closer.toList) =
      (false, ' ' :: (e.spelling ++ [' ']) ++ TagForm.output.closer.toList) := rfl
  obtain ⟨closing, eof, tokens, ends, isEof⟩ := exists_tokenize_eq read matched noDash
  have source : "\x7b\x7b " ++ e.display ++ " \x7d\x7d" = String.ofList
      (TagForm.output.opener.toList ++
        (' ' :: (e.spelling ++ [' ']) ++ TagForm.output.closer.toList)) := by
    apply String.toList_injective
    simp [display, TagForm.opener, TagForm.closer]
  rw [source]
  exact ⟨_, _, closing, eof, tokens, rfl, ends, isEof,
    expression_eq_ok_of_derived derived ends isEof⟩

/-- A hash with two closing braces in a key, and a comparison with an attribute and an index. -/
theorem read_display_nested :
    let e : Expr := .hash [(.string "\"\n\x7d\x7d", .list [.index (.attribute (.compare .equal
      (.name "x") (.integer (-1))) "true") (.real "1e5")]), (.integer 7, .null)]
    e.Faithful ∧ ∃ opening inner closing eof,
      tokenize "\x7b\x7b \x7b\"\\\"\\n\x7d\x7d\": [(x == -1).true[1e5]], 7: null\x7d \x7d\x7d" =
          .ok (opening :: inner ++ [closing, eof]) ∧
        opening.kind = .opening .output ∧ closing.kind = .closing .output ∧ eof.kind = .eof ∧
        Reading.expression (.ofList (inner ++ [closing, eof])) =
          .ok e (.ofList [closing, eof]) := by
  intro e
  have real : (Kind.real "1e5").Writable := by
    refine ⟨⟨[], ['1'], [], ['e', '5'], rfl, by simp, ?_, .inl rfl, .inr ?_⟩, rfl⟩
    · exact .inr ⟨'1', [], rfl, by simp, by simp [Lexeme.Number.IsDigits]⟩
    · exact ⟨'e', [], ['5'], rfl, by simp, by simp, by simp [Lexeme.Number.IsDigits]⟩
  have name : IsIdentifier "x" := ⟨_, _, rfl, rfl, by simp⟩
  have word : IsIdentifier "true" := ⟨_, _, rfl, rfl, List.all_eq_true.mp rfl⟩
  have brace : Text.Quotable '\x7d' := .inl (by decide)
  have key : (Expr.string "\"\n\x7d\x7d").Faithful := by
    refine .string ?_
    simpa [Text.Quotable] using brace
  have list : (Expr.list [.index (.attribute (.compare .equal (.name "x") (.integer (-1))) "true")
      (.real "1e5")]).Faithful := by
    refine .list (List.forall_mem_singleton.mpr (.indexOf trivial ?_ (.real real)))
    exact .attributeOf trivial (.comparison .equal (.name name (by decide)) (.integer (-1))) word
  have faithful : e.Faithful := by
    refine .hash (by simp [IsKey]) ?_ ?_
    · simpa using ⟨key, .integer 7⟩
    · simpa using ⟨list, .null⟩
  have shown : e.display = "\x7b\"\\\"\\n\x7d\x7d\": [(x == -1).true[1e5]], 7: null\x7d" := by
    cbv
  have back := read_display faithful
  rw [shown] at back
  exact ⟨faithful, back⟩

end Expr

end SheetMarkup
