import SheetMarkup.Proofs.Expr.Longest
import SheetMarkup.Proofs.Lexeme.Spelling
import SheetMarkup.Source.Tokens

/-!
# Written sources

Texts and tags that are written one after another are found again. The closer of a tag is not seen
in what is written inside of it: neither in strings, as these are skipped, nor where braces are
open, nor across two tokens, as blanks stand between them (`Nesting.split?_row`). A text without
openers is found up to the opener behind it (`PlainText.find?_append`). So a source that is written
in pieces has the tokens of the pieces (`tokenize_source`).
-/

namespace SheetMarkup

open Token (Kind kinds)

/-! ## Closers -/

namespace Nesting

/-- The characters that change no nesting and begin no closer. -/
def Quiet (c : Char) : Prop := c ∉ ['"', '\'', '{', '}', '%']

theorem next_of_quiet {c : Char} (h : Quiet c) (depth : Nat) :
    (bare depth).next c = bare depth := by
  simp only [Quiet, List.mem_cons, List.not_mem_nil, or_false, not_or] at h
  simp [next, h]

/-- A closer begins with a closing brace or a percent sign. -/
theorem not_isPrefixOf_closer {c : Char} (h : c ∉ ['}', '%']) (form : TagForm) (cs : List Char) :
    ¬ (form.closer.toList.isPrefixOf (c :: cs) = true) := by
  simp only [List.mem_cons, List.not_mem_nil, or_false, not_or] at h
  cases form <;> simp [TagForm.closer, Ne.symm h.1, Ne.symm h.2]

/-- What a search does behind characters that it has passed. -/
def passed (before : List Char) (found : Option (List Char × List Char)) :
    Option (List Char × List Char) :=
  found.map fun split => (before ++ split.1, split.2)

theorem passed_nil (found : Option (List Char × List Char)) : passed [] found = found := by
  cases found <;> rfl

theorem passed_passed (a b : List Char) (found : Option (List Char × List Char)) :
    passed a (passed b found) = passed (a ++ b) found := by
  cases found <;> simp [passed]

theorem split?_cons_of {closer : List Char} {nesting : Nesting} {c : Char} {cs : List Char}
    (h : ¬ (nesting = bare 0 ∧ closer.isPrefixOf (c :: cs) = true)) :
    split? closer nesting (c :: cs) = passed [c] (split? closer (nesting.next c) cs) := by
  rw [split?, if_neg h]
  rfl

theorem split?_cons_quoted (closer : List Char) (quote : Char) (depth : Nat) (c : Char)
    (cs : List Char) :
    split? closer (quoted quote depth) (c :: cs) =
      passed [c] (split? closer ((quoted quote depth).next c) cs) :=
  split?_cons_of (by simp)

theorem split?_cons_escaped (closer : List Char) (quote : Char) (depth : Nat) (c : Char)
    (cs : List Char) :
    split? closer (escaped quote depth) (c :: cs) =
      passed [c] (split? closer (quoted quote depth) cs) :=
  split?_cons_of (by simp)

/-- A character that begins no closer is passed, wherever the search stands. -/
theorem split?_cons_of_notMem (form : TagForm) (nesting : Nesting) {c : Char}
    (h : c ∉ ['}', '%']) (cs : List Char) :
    split? form.closer.toList nesting (c :: cs) =
      passed [c] (split? form.closer.toList (nesting.next c) cs) :=
  split?_cons_of fun here => not_isPrefixOf_closer h form cs here.2

/-- A search passes quiet characters. -/
theorem split?_quiet {run : List Char} (quiet : ∀ c ∈ run, Quiet c) (form : TagForm)
    (depth : Nat) (rest : List Char) :
    split? form.closer.toList (bare depth) (run ++ rest) =
      passed run (split? form.closer.toList (bare depth) rest) := by
  induction run with
  | nil => rw [passed_nil]; rfl
  | cons c run ih =>
      have first := quiet c (by simp)
      have noCloser : c ∉ ['}', '%'] := fun mem =>
        first (List.mem_append_right ['"', '\'', '{'] mem)
      rw [List.cons_append, split?_cons_of_notMem form _ noCloser, next_of_quiet first,
        ih fun d mem => quiet d (by simp [mem]), passed_passed]
      rfl

theorem quiet_of_toNat {c : Char} (low : 40 ≤ c.toNat) (high : c.toNat ≤ 122) : Quiet c := by
  simp only [Quiet, List.mem_cons, List.not_mem_nil, or_false]
  rintro (rfl | rfl | rfl | rfl | rfl) <;> revert low high <;> decide

theorem quiet_of_isBlank {c : Char} (h : Text.isBlank c = true) : Quiet c := by
  simp only [Quiet, List.mem_cons, List.not_mem_nil, or_false]
  rintro (rfl | rfl | rfl | rfl | rfl) <;> cases h

theorem quiet_of_isIdentifier {name : String} (h : IsIdentifier name) :
    ∀ c ∈ name.toList, Quiet c := by
  obtain ⟨first, cs, eq, start, others⟩ := h
  intro c mem
  rw [eq] at mem
  rcases List.mem_cons.mp mem with rfl | mem
  · have := Lexeme.toNat_of_isNameStart start
    exact quiet_of_toNat (by omega) (by omega)
  · have := Lexeme.toNat_of_isNameChar (others c mem)
    exact quiet_of_toNat (by omega) (by omega)

theorem quiet_of_isNumeral {cs : List Char} (h : Lexeme.Number.IsNumeral cs) :
    ∀ c ∈ cs, Quiet c := by
  intro c mem
  obtain ⟨low, high⟩ := h.toNat_of_mem c mem
  exact quiet_of_toNat low high

theorem split?_string (form : TagForm) (depth : Nat) (cs rest : List Char) :
    split? form.closer.toList (quoted '"' depth) (Lexeme.Literal.writtenText cs ++ '"' :: rest) =
      passed (Lexeme.Literal.writtenText cs ++ ['"'])
        (split? form.closer.toList (bare depth) rest) := by
  induction cs with
  | nil =>
      rw [Lexeme.Literal.writtenText, List.flatMap_nil, List.nil_append,
        split?_cons_quoted]
      rfl
  | cons c cs ih =>
      have cons : ∀ more, Lexeme.Literal.writtenText (c :: cs) ++ more =
          Lexeme.Literal.escaped c ++ (Lexeme.Literal.writtenText cs ++ more) := by
        simp [Lexeme.Literal.writtenText]
      rw [cons, cons, ← passed_passed, ← ih, Lexeme.Literal.escaped]
      split
      · -- the backslash takes the character behind it along
        next special =>
        have backslash : (quoted '"' depth).next '\\' = escaped '"' depth := rfl
        rw [List.cons_append, split?_cons_quoted, backslash, List.singleton_append,
          split?_cons_escaped, passed_passed]
        rfl
      · next plain =>
        have stays : (quoted '"' depth).next c = quoted '"' depth := by
          simp only [not_or] at plain
          simp [next, plain]
        rw [List.singleton_append, split?_cons_quoted, stays]

/-- A search passes a token that blanks follow, and knows how many braces it leaves open. -/
theorem split?_spelling {kind : Kind} (h : kind.Writable) (form : TagForm) (depth : Nat)
    {rest : List Char} (blank : BlankLed rest) :
    split? form.closer.toList (bare depth) (kind.spelling ++ rest) =
      passed kind.spelling (split? form.closer.toList (bare (kind.depth depth)) rest) := by
  cases kind with
  | name value => exact split?_quiet (quiet_of_isIdentifier h) form depth rest
  | integer value =>
      exact split?_quiet (quiet_of_isNumeral (Lexeme.Number.isNumeral_signedDecimal _)) form depth
        rest
  | real written => exact split?_quiet (quiet_of_isNumeral h.1) form depth rest
  | string value =>
      -- no closer begins with a quote, and the string behind it is skipped as a whole
      have begins : (bare depth).next '"' = quoted '"' depth := rfl
      rw [Kind.spelling, List.append_assoc, List.cons_append, List.singleton_append,
        split?_cons_of_notMem form _ (by decide), begins, split?_string, passed_passed]
      rfl
  | symbol mark =>
      cases mark with
      | openBrace => exact split?_cons_of_notMem form _ (by decide) rest
      | closeBrace =>
          have noCloser : ¬ (form.closer.toList.isPrefixOf ('}' :: rest) = true) := by
            cases rest with
            | nil => cases form <;> simp [TagForm.closer]
            | cons c rest =>
                -- a blank follows, so the brace does not begin a closer of two braces
                have other : '}' ≠ c := by
                  rintro rfl
                  cases blank '}' rfl
                cases form <;> simp [TagForm.closer, other]
          exact split?_cons_of fun h => noCloser h.2
      | _ => exact split?_quiet (by simp [Quiet, Kind.spelling, Symbol.spelling]) form depth rest
  | text | opening | closing | eof => exact absurd h id

theorem split?_closer (form : TagForm) (rest : List Char) :
    split? form.closer.toList (bare 0) (form.closer.toList ++ rest) = some ([], rest) := by
  cases form <;> simp [TagForm.closer, split?]

open Lexeme in
/-- A search ends behind a row of tokens that leaves no braces open, at the closer behind it. -/
theorem split?_row {row : List (List Char × Kind)} (h : WritableRow row) {trail : List Char}
    (blanks : Blanks trail) (form : TagForm) {depth : Nat}
    (closed : (row.map Prod.snd).foldl Kind.depth depth = 0) (rest : List Char) :
    split? form.closer.toList (bare depth)
        (spellAll (ofRow row) ++ trail ++ (form.closer.toList ++ rest)) =
      some (spellAll (ofRow row) ++ trail, rest) := by
  induction row generalizing depth with
  | nil =>
      have depth_eq : depth = 0 := closed
      subst depth_eq
      change split? form.closer.toList (bare 0) (trail ++ (form.closer.toList ++ rest)) = _
      -- no braces are open behind the row, so the closer is seen
      rw [split?_quiet (fun c mem => quiet_of_isBlank (blanks.2 c mem)), split?_closer]
      simp [passed, spellAll, ofRow]
  | cons entry row ih =>
      obtain ⟨lead, kind⟩ := entry
      obtain ⟨⟨-, leadBlanks⟩, writable⟩ : Blanks lead ∧ kind.Writable :=
        h (lead, kind) (by simp)
      have others : WritableRow row := fun entry mem => h entry (by simp [mem])
      have behind : BlankLed (spellAll (ofRow row) ++ trail ++ (form.closer.toList ++ rest)) := by
        rw [List.append_assoc]
        exact blankLed_spellAll others (blanks.blankLed _)
      -- past the blanks and the token, the search goes on with the braces it leaves open
      have shape : spellAll (ofRow ((lead, kind) :: row)) ++ trail ++ (form.closer.toList ++ rest) =
          lead ++ (kind.spelling ++
            (spellAll (ofRow row) ++ trail ++ (form.closer.toList ++ rest))) := by
        rw [spellAll_ofRow_cons]
        simp
      rw [shape, split?_quiet fun c mem => quiet_of_isBlank (leadBlanks c mem),
        split?_spelling writable form depth behind, passed_passed, ih others closed,
        spellAll_ofRow_cons]
      simp [passed]

end Nesting

/-! ## Openers -/

/-- A text in which there is no opener, and of which none can begin at its end. -/
def PlainText (cs : List Char) : Prop :=
  (∀ opener : Opener, ¬ opener.spelling <:+: cs) ∧ cs.getLast? ≠ some '{'

namespace Opener

theorem exists_spelling_eq (opener : Opener) : ∃ c, opener.spelling = ['{', c] := by
  cases opener with
  | tag form => cases form <;> exact ⟨_, rfl⟩
  | comment => exact ⟨_, rfl⟩

theorem split?_spelling (opener : Opener) (rest : List Char) :
    split? (opener.spelling ++ rest) = some (opener, rest) := by
  cases opener with
  | tag form => cases form <;> rfl
  | comment => rfl

theorem find?_of_split?_eq_none {c : Char} {cs : List Char} (h : split? (c :: cs) = none) :
    find? (c :: cs) = (find? cs).map fun (text, found) => (c :: text, found) := by
  rw [find?, h]

/-- Where no opener is, none is found. -/
theorem find?_eq_none {cs : List Char} (h : ∀ opener : Opener, ¬ opener.spelling <:+: cs) :
    find? cs = none := by
  induction cs with
  | nil => rfl
  | cons c cs ih =>
      have first : split? (c :: cs) = none := by
        cases found : split? (c :: cs) with
        | none => rfl
        | some split =>
            obtain ⟨opener, rest⟩ := split
            exact absurd ⟨[], rest, split?_append found⟩ (h opener)
      rw [find?_of_split?_eq_none first, ih fun opener inner => h opener (inner.trans
        (List.suffix_cons c cs).isInfix)]
      rfl

end Opener

namespace PlainText

theorem nil : PlainText [] := by
  refine ⟨fun opener inner => ?_, by simp⟩
  obtain ⟨c, eq⟩ := opener.exists_spelling_eq
  rw [eq] at inner
  simp at inner

/-- A text without braces is plain. -/
theorem of_notMem {cs : List Char} (h : '{' ∉ cs) : PlainText cs := by
  refine ⟨fun opener inner => ?_, fun last => h (List.mem_of_getLast? last)⟩
  obtain ⟨c, eq⟩ := opener.exists_spelling_eq
  rw [eq] at inner
  exact h (inner.subset (by simp))

theorem tail {c : Char} {cs : List Char} (h : PlainText (c :: cs)) : PlainText cs := by
  refine ⟨fun opener inner => h.1 opener (inner.trans (List.suffix_cons c cs).isInfix), ?_⟩
  intro last
  exact h.2 (by rw [List.getLast?_cons, last]; rfl)

/-- A line feed before a text makes no opener. -/
theorem lineFeed {cs : List Char} (h : PlainText cs) : PlainText ('\n' :: cs) := by
  refine ⟨fun opener inner => ?_, fun last => ?_⟩
  · rcases List.infix_cons_iff.mp inner with begins | inner
    · obtain ⟨c, eq⟩ := opener.exists_spelling_eq
      rw [eq] at begins
      cases (List.cons_prefix_cons.mp begins).1
    · exact h.1 opener inner
  · rw [List.getLast?_cons] at last
    cases final : cs.getLast? with
    | none => simp [final] at last
    | some c => exact h.2 (by simpa [final] using last)

/-- The opener behind a text is found. -/
theorem find?_append {cs : List Char} (h : PlainText cs) (opener : Opener) (rest : List Char) :
    Opener.find? (cs ++ (opener.spelling ++ rest)) = some (cs, opener, rest) := by
  induction cs with
  | nil =>
      obtain ⟨c, eq⟩ := opener.exists_spelling_eq
      have first := opener.split?_spelling rest
      rw [eq] at first ⊢
      simp only [List.nil_append, List.cons_append] at first ⊢
      rw [Opener.find?, first]
  | cons c cs ih =>
      have first : Opener.split? (c :: (cs ++ (opener.spelling ++ rest))) = none := by
        cases found : Opener.split? (c :: (cs ++ (opener.spelling ++ rest))) with
        | none => rfl
        | some split =>
            obtain ⟨other, behind⟩ := split
            have begins := Opener.split?_append found
            obtain ⟨d, eq⟩ := other.exists_spelling_eq
            rw [eq] at begins
            -- an opener found earlier would begin in the text and end in it or in the one behind it
            obtain ⟨brace, others⟩ := List.cons.inj begins
            subst brace
            cases cs with
            | nil =>
                -- the text would end with the brace that the opener begins with
                exact absurd rfl h.2
            | cons second cs =>
                obtain ⟨same, -⟩ := List.cons.inj others
                subst same
                exact absurd ⟨[], cs, by rw [eq]; rfl⟩ (h.1 other)
      rw [List.cons_append, Opener.find?_of_split?_eq_none first, ih h.tail]
      rfl

end PlainText

/-! ## Tags -/

/-- Tokens with one space before each of them. -/
def spaced (ks : List Kind) : List (List Char × Kind) := ks.map fun k => ([' '], k)

/-- What is written inside of a tag: tokens with spaces before, between and behind them. -/
def inside (ks : List Kind) : List Char := Lexeme.spellAll (Lexeme.ofRow (spaced ks)) ++ [' ']

theorem blanks_space : Blanks [' '] := ⟨by simp, by simp [Text.isBlank]⟩

theorem writableRow_spaced {ks : List Kind} (h : ∀ k ∈ ks, k.Writable) :
    Lexeme.WritableRow (spaced ks) := by
  intro entry mem
  obtain ⟨k, k_mem, rfl⟩ := List.mem_map.mp mem
  exact ⟨blanks_space, h k k_mem⟩

theorem map_snd_spaced (ks : List Kind) : (spaced ks).map Prod.snd = ks := by
  simp [spaced, Function.comp_def]

namespace Tag

theorem splitDash_of_blankLed {cs : List Char} (h : BlankLed cs) : splitDash cs = (false, cs) := by
  unfold splitDash
  split
  · next rest => cases h '-' rfl
  · rfl

theorem splitEndDash_of_getLast?_ne {cs : List Char} (h : cs.getLast? ≠ some '-') :
    splitEndDash cs = (cs, false) := by
  rw [splitEndDash, if_neg h]

/-- A tag in which tokens are written with blanks around them is read. -/
theorem read?_row {row : List (List Char × Kind)} (writable : Lexeme.WritableRow row)
    {trail : List Char} (blanks : Blanks trail) (form : TagForm)
    (closed : (row.map Prod.snd).foldl Kind.depth 0 = 0) (rest : List Char) :
    read? (.tag form)
        (Lexeme.spellAll (Lexeme.ofRow row) ++ trail ++ (form.closer.toList ++ rest)) =
      some (⟨.tag form, false, Lexeme.spellAll (Lexeme.ofRow row) ++ trail, false⟩, rest) := by
  have first : BlankLed
      (Lexeme.spellAll (Lexeme.ofRow row) ++ trail ++ (form.closer.toList ++ rest)) := by
    rw [List.append_assoc]
    exact Lexeme.blankLed_spellAll writable (blanks.blankLed _)
  have last : (Lexeme.spellAll (Lexeme.ofRow row) ++ trail).getLast? ≠ some '-' := by
    obtain ⟨ne, blank⟩ := blanks
    rw [List.getLast?_append, List.getLast?_eq_some_getLast ne, Option.some_or]
    intro dash
    have isBlank := blank _ (List.getLast_mem ne)
    rw [Option.some.inj dash] at isBlank
    cases isBlank
  have closer := Nesting.split?_row writable blanks form closed rest
  simp only [read?, splitDash_of_blankLed first, splitEndDash_of_getLast?_ne last,
    show (Opener.tag form).splitCloser? _ = _ from closer, Option.bind_eq_bind, Option.bind_some]
  rfl

/-- A tag that is written is read. -/
theorem read?_inside {ks : List Kind} (h : Kind.Balanced ks) (form : TagForm) (rest : List Char) :
    read? (.tag form) (inside ks ++ (form.closer.toList ++ rest)) =
      some (⟨.tag form, false, inside ks, false⟩, rest) := by
  apply read?_row (writableRow_spaced h.1) blanks_space form
  rw [map_snd_spaced]
  exact h.2 0

/-- The comment that keeps two texts apart. -/
def separator : Tag := ⟨.comment, false, [' '], false⟩

theorem read?_separator (rest : List Char) :
    read? .comment (' ' :: '#' :: '}' :: rest) = some (separator, rest) := rfl

theorem tokens_separator (line : Nat) :
    ∃ tokens, separator.tokens line = .ok tokens ∧ kinds tokens = [] := ⟨[], rfl, rfl⟩

theorem kinds_tokens (line : Nat) (row : List (List Char × Lexeme)) :
    kinds (Lexeme.tokens line row) = row.map fun entry => entry.2.kind := by
  induction row generalizing line with
  | nil => rfl
  | cons entry row ih =>
      rw [Lexeme.tokens, Token.kinds_cons, ih]
      rfl

/-- The tokens of a tag in which tokens are written with blanks around them are these. -/
theorem tokens_row {row : List (List Char × Kind)} (writable : Lexeme.WritableRow row)
    {trail : List Char} (blanks : Blanks trail) (form : TagForm) (line : Nat) :
    ∃ tokens, Tag.tokens line
        ⟨.tag form, false, Lexeme.spellAll (Lexeme.ofRow row) ++ trail, false⟩ = .ok tokens ∧
      kinds tokens = .opening form :: row.map Prod.snd ++ [.closing form] := by
  have read := Lexeme.readAll_row writable blanks.2
  refine ⟨⟨.opening form, line⟩ :: Lexeme.tokens line (Lexeme.ofRow row) ++ [⟨.closing form,
    line + Text.lineFeeds (Lexeme.spellAll (Lexeme.ofRow row) ++ trail)⟩], ?_, ?_⟩
  · simp only [Tag.tokens, read]
  · rw [Token.kinds_append, Token.kinds_cons, kinds_tokens]
    simp [Lexeme.ofRow, Lexeme.ofKind, Function.comp_def]

/-- The tokens of a tag that is written are those it was written with. -/
theorem tokens_inside {ks : List Kind} (h : ∀ k ∈ ks, k.Writable) (form : TagForm) (line : Nat) :
    ∃ tokens, Tag.tokens line ⟨.tag form, false, inside ks, false⟩ = .ok tokens ∧
      kinds tokens = .opening form :: ks ++ [.closing form] := by
  obtain ⟨tokens, written, spelled⟩ := tokens_row (writableRow_spaced h) blanks_space form line
  rw [map_snd_spaced] at spelled
  exact ⟨tokens, written, spelled⟩

end Tag

/-! ## Pieces -/

/-- A piece of a source: a text, or a tag with its tokens. -/
inductive Piece where
  | text (value : String)
  | tag (form : TagForm) (ks : List Kind)

namespace Piece

/-- How a tag is written. A block tag has a line to itself or ends one. -/
def tagSource (form : TagForm) (ks : List Kind) : List Char :=
  form.opener.toList ++ inside ks ++ form.closer.toList ++
    match form with
    | .output => []
    | .block => ['\n']

/-- How pieces are written, behind a text or not. Between two texts stands a comment. -/
def source (behindText : Bool) : List Piece → List Char
  | [] => []
  | .text value :: more =>
    (if behindText then "\x7b# #\x7d\n".toList else []) ++ value.toList ++ source true more
  | .tag form ks :: more => tagSource form ks ++ source false more

/-- The tokens of a piece. -/
def row : Piece → List Kind
  | .text value => [.text value]
  | .tag form ks => .opening form :: ks ++ [.closing form]

/-- The pieces that can be written: texts without openers, and tags whose tokens can be written. -/
def WellFormed : Piece → Prop
  | .text value => value ≠ "" ∧ PlainText value.toList
  | .tag _ ks => Kind.Balanced ks

end Piece

/-! ## The tokens of pieces -/

namespace Trimming

/-- What is lost of a text that follows a written tag. -/
def lead : Trimming → List Char
  | lineEnd => ['\n']
  | _ => []

theorem split_lead {trimming : Trimming} (h : trimming ≠ blanks) (t : List Char) :
    trimming.split (trimming.lead ++ t) = (trimming.lead, t) := by
  cases trimming with
  | nothing => cases t <;> rfl
  | lineEnd => rfl
  | blanks => exact absurd rfl h

end Trimming

theorem PlainText.lead {t : List Char} (h : PlainText t) (trimming : Trimming) :
    PlainText (trimming.lead ++ t) := by
  cases trimming with
  | lineEnd => exact h.lineFeed
  | _ => exact h

theorem kinds_textToken (line : Nat) (t : List Char) :
    kinds (textToken line t) = if t = [] then [] else [.text (String.ofList t)] := by
  unfold textToken
  split <;> rfl

/-! ## The tokens of cut sources -/

theorem cut_of_find?_eq_none {cs : List Char} (find : Opener.find? cs = none) :
    cut cs = .text cs := by
  rw [cut]
  split
  · rfl
  · next found => cases find.symm.trans found

theorem cut_of_read?_eq_none {cs t inside : List Char} {opener : Opener}
    (find : Opener.find? cs = some (t, opener, inside)) (read : Tag.read? opener inside = none) :
    cut cs = .unclosed t opener inside := by
  rw [cut]
  split
  · next none => cases find.symm.trans none
  · next found =>
    cases find.symm.trans found
    split
    · rfl
    · next again => cases read.symm.trans again

theorem cut_of_find?_eq_some {cs t inside rest : List Char} {opener : Opener} {tag : Tag}
    (find : Opener.find? cs = some (t, opener, inside))
    (read : Tag.read? opener inside = some (tag, rest)) : cut cs = .tag t tag (cut rest) := by
  rw [cut]
  split
  · next none => cases find.symm.trans none
  · next found =>
    cases find.symm.trans found
    split
    · next unread => cases read.symm.trans unread
    · next again =>
      cases read.symm.trans again
      rfl

namespace Cut

variable {line : Nat} {trimming : Trimming} {t : List Char}

theorem cut_text (plain : PlainText t) (trimming : Trimming) :
    cut (trimming.lead ++ t) = .text (trimming.lead ++ t) :=
  cut_of_find?_eq_none (Opener.find?_eq_none (plain.lead trimming).1)

theorem cut_tag {opener : Opener} {written rest : List Char} {tag : Tag} (plain : PlainText t)
    (trimming : Trimming) (read : Tag.read? opener written = some (tag, rest)) :
    cut (trimming.lead ++ t ++ (opener.spelling ++ written)) =
      .tag (trimming.lead ++ t) tag (cut rest) :=
  cut_of_find?_eq_some ((plain.lead trimming).find?_append opener written) read

/-- On whatever line a cut source starts, its tokens are of these kinds. -/
def HasTokens (source : Cut) (trimming : Trimming) (ks : List Kind) : Prop :=
  ∀ line, ∃ tokens, source.tokens line trimming = .ok tokens ∧ kinds tokens = ks

/-- The token of a text, if it is not empty. -/
def textRow (t : List Char) : List Kind := if t = [] then [] else [.text (String.ofList t)]

/-- The tokens of a text, a tag and what follows are those of each of them. -/
theorem hasTokens_tag {tag : Tag} {after : Cut} {inner more : List Kind}
    (keeps : trimming ≠ .blanks) (noDash : tag.openDash = false)
    (inside : ∀ line, ∃ tokens, tag.tokens line = .ok tokens ∧ kinds tokens = inner)
    (behind : after.HasTokens (.behind tag) more) (t : List Char) :
    (Cut.tag (trimming.lead ++ t) tag after).HasTokens trimming (textRow t ++ inner ++ more) := by
  intro line
  obtain ⟨tokens, first, rfl⟩ := inside (line + Text.lineFeeds (trimming.lead ++ t))
  obtain ⟨others, second, rfl⟩ := behind
    (line + Text.lineFeeds (trimming.lead ++ t) + Text.lineFeeds tag.spelling)
  refine ⟨textToken (line + Text.lineFeeds trimming.lead) t ++ tokens ++ others, ?_, ?_⟩
  · simp only [Cut.tokens, Trimming.split_lead keeps, noDash, first, second]
    rfl
  · simp only [Token.kinds_append, kinds_textToken, textRow]

/-- The tokens of a last text are its own and the end. -/
theorem hasTokens_text (keeps : trimming ≠ .blanks) (t : List Char) :
    (Cut.text (trimming.lead ++ t)).HasTokens trimming (textRow t ++ [.eof]) := by
  intro line
  refine ⟨textToken (line + Text.lineFeeds trimming.lead) t ++
    [⟨.eof, line + Text.lineFeeds (trimming.lead ++ t)⟩], ?_, ?_⟩
  · simp only [Cut.tokens, Trimming.split_lead keeps]
  · rw [Token.kinds_append, kinds_textToken]
    rfl

/-- The comment between two texts ends the first one and has no tokens. -/
theorem hasTokens_separated {next : List Char} {more : List Kind} (plain : PlainText t)
    (keeps : trimming ≠ .blanks) (behind : (cut ('\n' :: next)).HasTokens .lineEnd more) :
    (cut (trimming.lead ++ t ++ ("\x7b# #\x7d\n".toList ++ next))).HasTokens trimming
      (textRow t ++ more) := by
  have shape : trimming.lead ++ t ++ ("\x7b# #\x7d\n".toList ++ next) =
      trimming.lead ++ t ++ (Opener.comment.spelling ++ (' ' :: '#' :: '}' :: '\n' :: next)) := by
    simp [Opener.spelling]
  have whole := hasTokens_tag keeps rfl Tag.tokens_separator behind t
  rw [List.append_nil] at whole
  rw [shape, cut_tag plain trimming (Tag.read?_separator _)]
  exact whole

/-- A tag that is written behind a text has its tokens, and what follows is trimmed as it must be
behind it. -/
theorem hasTokens_written (form : TagForm) {ks : List Kind} (balanced : Kind.Balanced ks)
    {next : List Char} {more : List Kind} (plain : PlainText t) (keeps : trimming ≠ .blanks)
    (behind : ∀ after : Trimming, after ≠ .blanks →
      (cut (after.lead ++ next)).HasTokens after more) :
    (cut (trimming.lead ++ t ++ (Piece.tagSource form ks ++ next))).HasTokens trimming
      (textRow t ++ (.opening form :: ks ++ [.closing form]) ++ more) := by
  let tag : Tag := ⟨.tag form, false, inside ks, false⟩
  have notBlanks : Trimming.behind tag ≠ .blanks := by cases form <;> nofun
  have shape : trimming.lead ++ t ++ (Piece.tagSource form ks ++ next) =
      trimming.lead ++ t ++ ((Opener.tag form).spelling ++ (inside ks ++
        (form.closer.toList ++ ((Trimming.behind tag).lead ++ next)))) := by
    cases form <;> simp [tag, Piece.tagSource, Opener.spelling, Trimming.behind, Trimming.lead]
  rw [shape, cut_tag plain trimming (Tag.read?_inside balanced form _)]
  exact hasTokens_tag keeps rfl (Tag.tokens_inside balanced.1 form) (behind _ notBlanks) t

/-- Pieces behind a text have the tokens of the text and their own, and the end. -/
theorem hasTokens_source {pieces : List Piece} (h : ∀ piece ∈ pieces, piece.WellFormed)
    (plain : PlainText t) (keeps : trimming ≠ .blanks) :
    (cut (trimming.lead ++ t ++ Piece.source (t ≠ []) pieces)).HasTokens trimming
      (textRow t ++ (pieces.flatMap Piece.row ++ [.eof])) := by
  induction pieces generalizing t trimming with
  | nil =>
      rw [Piece.source, List.append_nil, cut_text plain]
      exact hasTokens_text keeps t
  | cons piece pieces ih =>
      have others : ∀ piece ∈ pieces, piece.WellFormed := by
        intro piece mem
        exact h piece (by simp [mem])
      have first := h piece (by simp)
      cases piece with
      | text value =>
          have value_ne : value.toList ≠ [] := by simpa using first.1
          have row : textRow value.toList = (Piece.text value).row := by
            simp [textRow, Piece.row, first.1]
          -- without a text before it, the text is the pending one itself
          by_cases empty : t = []
          · subst empty
            have alone := ih others first.2 keeps
            rw [row] at alone
            simpa [Piece.source, textRow, value_ne] using alone
          · have lineEnd : Trimming.lineEnd ≠ .blanks := nofun
            have behind := ih others first.2 lineEnd
            rw [row] at behind
            have separated := hasTokens_separated plain keeps behind
            simpa [Piece.source, empty, value_ne] using separated
      | tag form ks =>
          have behind : ∀ after : Trimming, after ≠ .blanks →
              (cut (after.lead ++ Piece.source false pieces)).HasTokens after
                (pieces.flatMap Piece.row ++ [.eof]) := by
            intro after notBlanks
            simpa [textRow] using ih others .nil notBlanks
          have written := hasTokens_written form first plain keeps behind
          simpa only [Piece.source, Piece.row, List.flatMap_cons, List.append_assoc] using written

end Cut

/-- A source that is written in pieces has the tokens of the pieces, and the end. -/
theorem tokenize_source {pieces : List Piece} (h : ∀ piece ∈ pieces, piece.WellFormed) :
    ∃ tokens, tokenize (String.ofList (Piece.source false pieces)) = .ok tokens ∧
      kinds tokens = pieces.flatMap Piece.row ++ [.eof] := by
  have nothing : Trimming.nothing ≠ .blanks := nofun
  obtain ⟨tokens, read, spelled⟩ := Cut.hasTokens_source h .nil nothing 1
  refine ⟨tokens, ?_, spelled⟩
  simpa [tokenize, Trimming.lead] using read

end SheetMarkup
