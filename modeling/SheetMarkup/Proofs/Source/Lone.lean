import SheetMarkup.Proofs.Source.Shape
import SheetMarkup.Proofs.Source.Written

/-!
# Sources of one tag

A source that is a tag and nothing else has the tokens of the tag and the end (`tokenize_lone`). So
every row of tokens that closes the braces it opens can be written between the delimiters of a tag,
with any blanks around the tokens, and is what the source is read as (`tokenize_row`). A closing
brace too many does no harm, and neither does a closer or an opener inside of a string.
-/

namespace SheetMarkup

open Token (Kind kinds)

/-- A source that is a tag and nothing else has the tokens of the tag, and the end. -/
theorem tokenize_lone {opener : Opener} {tag : Tag} {inside : List Char} {tokens : List Token}
    (read : Tag.read? opener inside = some (tag, [])) (inner : tag.tokens 1 = .ok tokens) :
    tokenize (String.ofList (opener.spelling ++ inside)) =
      .ok (tokens ++ [⟨.eof, 1 + Text.lineFeeds tag.spelling⟩]) := by
  have find := PlainText.nil.find?_append opener inside
  have parts : cut (opener.spelling ++ inside) = .tag [] tag (.text []) := by
    have empty : cut [] = .text [] := cut_of_find?_eq_none rfl
    rw [← empty]
    exact cut_of_find?_eq_some find read
  rw [tokenize, String.toList_ofList, parts]
  apply Cut.tokens_tag_eq_ok_iff.mpr
  refine ⟨tokens, _, inner, Cut.tokens_text_nil _ _, ?_⟩
  cases tag.openDash <;> rfl

/-- A tag in which tokens are written, with blanks before, between and behind them, is read as its
delimiters with exactly these tokens between them, if the tokens leave no brace open. -/
theorem tokenize_row {row : List (List Char × Kind)} (writable : Lexeme.WritableRow row)
    {trail : List Char} (blanks : Blanks trail) (form : TagForm)
    (closed : (row.map Prod.snd).foldl Kind.depth 0 = 0) :
    ∃ tokens,
      tokenize (String.ofList (form.opener.toList ++
        (row.flatMap fun entry => entry.1 ++ entry.2.spelling) ++ trail ++
          form.closer.toList)) = .ok tokens ∧
      kinds tokens = .opening form :: row.map Prod.snd ++ [.closing form, .eof] := by
  have read := Tag.read?_row writable blanks form closed []
  obtain ⟨tokens, inner, spelled⟩ := Tag.tokens_row writable blanks form 1
  have shape : form.opener.toList ++ (row.flatMap fun entry => entry.1 ++ entry.2.spelling) ++
      trail ++ form.closer.toList = (Opener.tag form).spelling ++
        (Lexeme.spellAll (Lexeme.ofRow row) ++ trail ++ (form.closer.toList ++ [])) := by
    simp [Opener.spelling, Lexeme.spellAll, Lexeme.ofRow, Lexeme.ofKind, List.flatMap_map]
  rw [shape]
  have whole := tokenize_lone read inner
  refine ⟨_, whole, ?_⟩
  rw [Token.kinds_append, spelled]
  simp

/-- A string of delimiters, quotes and a line feed, a closing brace too many, and a minus sign, with
blanks of several sorts around them. -/
theorem tokenize_row_unbalanced :
    let row : List (List Char × Kind) := [(['\n'], .string "\x7d\x7d \"\x7b% '\\\n"),
      ([' ', '\t'], .symbol .closeBrace), ([' '], .symbol .openBrace), (['\u2003'], .integer (-5)),
      ([' '], .symbol .closeBrace), ([' '], .name "x"), ([' '], .symbol .unequal),
      (['\u0085'], .real "1e5")]
    Lexeme.WritableRow row ∧ Blanks ['\r', '\n'] ∧ (row.map Prod.snd).foldl Kind.depth 0 = 0 ∧
      ∃ tokens,
        tokenize (String.ofList ("\x7b%".toList ++
          (row.flatMap fun entry => entry.1 ++ entry.2.spelling) ++ ['\r', '\n'] ++
            "%\x7d".toList)) = .ok tokens ∧
        kinds tokens = .opening .block :: row.map Prod.snd ++ [.closing .block, .eof] := by
  intro row
  have name : IsIdentifier "x" := ⟨_, _, rfl, rfl, by simp⟩
  have real : (Kind.real "1e5").Writable := by
    refine ⟨⟨[], ['1'], [], ['e', '5'], rfl, by simp, ?_, .inl rfl, .inr ?_⟩, rfl⟩
    · exact .inr ⟨'1', [], rfl, by simp, by simp [Lexeme.Number.IsDigits]⟩
    · exact ⟨'e', [], ['5'], rfl, by simp, by simp, by simp [Lexeme.Number.IsDigits]⟩
  have writable : Lexeme.WritableRow row := by
    simpa [row, Lexeme.WritableRow, Blanks, Text.isBlank, Kind.Writable] using And.intro name real
  have blanks : Blanks ['\r', '\n'] := by simp [Blanks, Text.isBlank]
  have closed : (row.map Prod.snd).foldl Kind.depth 0 = 0 := rfl
  exact ⟨writable, blanks, closed, tokenize_row writable blanks .block closed⟩

end SheetMarkup
