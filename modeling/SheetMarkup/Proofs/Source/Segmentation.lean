import SheetMarkup.Proofs.Source.Shape
import SheetMarkup.Proofs.Source.Written

/-!
# The reference segmentation of a source

What the tags of a source are is told here by places alone, without a search. A tag begins at the
leftmost opener. It ends at the first of its closers that counts: in a comment every closer does, in
another tag those do that stand outside of string literals and outside of the braces opened before
them (`Stretch`). A minus sign behind the opener belongs to it, and one before the closer to that,
unless it is already taken. `Segmentation` puts tags and the texts between them together, and
`Cut.Shows` says what tokens they leave: a text loses what the tags on both sides of it take
(`KeptBehind`, `KeptBefore`), a comment leaves nothing, another tag its delimiters and the tokens of
its interior.

The tokens of a source are those of its segmentation, of which there is just one
(`tokenize_segmentation`).
-/

namespace SheetMarkup

open Token (Kind kinds)

/-! ## First places -/

/-- A text split at a mark, at the first place where the text before it is admitted. -/
structure FirstSplit (Admitted : List Char → Prop) (mark cs before after : List Char) : Prop where
  split : cs = before ++ mark ++ after
  admitted : Admitted before
  first : ∀ earlier others, cs = earlier ++ mark ++ others → Admitted earlier →
    before.length ≤ earlier.length

namespace FirstSplit

variable {Admitted : List Char → Prop} {mark cs before after : List Char}

/-- A mark that is admitted at the beginning of a text is the first one. -/
theorem of_prefix_iff (admitted : Admitted []) {rest : List Char} (h : mark ++ rest = cs) :
    FirstSplit Admitted mark cs before after ↔ before = [] ∧ after = rest := by
  constructor
  · intro place
    have short : before.length ≤ 0 := place.first [] rest (by simp [h]) admitted
    have nil : before = [] := List.length_eq_zero_iff.mp (Nat.le_zero.mp short)
    subst nil
    have same : mark ++ rest = mark ++ after := h.trans place.split
    exact ⟨rfl, (List.append_cancel_left same).symm⟩
  · rintro ⟨rfl, rfl⟩
    exact ⟨by simp [h], admitted, fun _ _ _ _ => Nat.zero_le _⟩

/-- A mark that is not at the beginning of a text stands behind its first character. -/
theorem cons_iff {c : Char} (h : ¬ (Admitted [] ∧ mark <+: c :: cs)) :
    FirstSplit Admitted mark (c :: cs) before after ↔
      ∃ behind, before = c :: behind ∧
        FirstSplit (fun text => Admitted (c :: text)) mark cs behind after := by
  have elsewhere : ∀ earlier others, c :: cs = earlier ++ mark ++ others → Admitted earlier →
      ∃ behind, earlier = c :: behind ∧ cs = behind ++ mark ++ others := by
    intro earlier others eq admitted
    cases earlier with
    | nil => exact absurd ⟨admitted, others, by simpa using eq.symm⟩ h
    | cons d behind =>
        simp only [List.cons_append, List.cons.injEq] at eq
        obtain ⟨rfl, eq⟩ := eq
        exact ⟨behind, rfl, eq⟩
  constructor
  · intro place
    obtain ⟨behind, rfl, split⟩ := elsewhere before after place.split place.admitted
    refine ⟨behind, rfl, split, place.admitted, ?_⟩
    intro earlier others eq admitted
    have le := place.first (c :: earlier) others (by simp [eq]) admitted
    simpa using le
  · rintro ⟨behind, rfl, place⟩
    refine ⟨by simp [place.split], place.admitted, ?_⟩
    intro earlier others eq admitted
    obtain ⟨text, rfl, rest⟩ := elsewhere earlier others eq admitted
    have le := place.first text others rest admitted
    simpa using le

end FirstSplit

/-! ## The closers that count -/

/-- What stands between two quotes: a backslash takes the character behind it along. -/
inductive LiteralBody (quote : Char) : List Char → Prop
  | nil : LiteralBody quote []
  | plain {c : Char} {cs : List Char} : c ≠ quote → c ≠ '\\' → LiteralBody quote cs →
      LiteralBody quote (c :: cs)
  | escape (c : Char) {cs : List Char} : LiteralBody quote cs → LiteralBody quote ('\\' :: c :: cs)

/-- A part of a tag that no string literal reaches out of, with the number of open braces before and
behind it. A closing brace without an open one is passed. -/
inductive Stretch : Nat → List Char → Nat → Prop
  | nil (depth : Nat) : Stretch depth [] depth
  | plain {c : Char} {cs : List Char} {depth final : Nat} : c ∉ ['"', '\'', '{', '}'] →
      Stretch depth cs final → Stretch depth (c :: cs) final
  | openBrace {cs : List Char} {depth final : Nat} : Stretch (depth + 1) cs final →
      Stretch depth ('{' :: cs) final
  | closeBrace {cs : List Char} {depth final : Nat} : Stretch (depth - 1) cs final →
      Stretch depth ('}' :: cs) final
  | literal {quote : Char} {body cs : List Char} {depth final : Nat} : quote ∈ ['"', '\''] →
      LiteralBody quote body → Stretch depth cs final →
        Stretch depth (quote :: body ++ quote :: cs) final

namespace Nesting

/-- What a text must be for a search to leave it outside of quotes, with this many braces open. -/
def Leaves (final : Nat) : Nesting → List Char → Prop
  | bare depth, cs => Stretch depth cs final
  | quoted quote depth, cs =>
    ∃ body rest, cs = body ++ quote :: rest ∧ LiteralBody quote body ∧ Stretch depth rest final
  | escaped quote depth, cs =>
    ∃ c body rest, cs = c :: body ++ quote :: rest ∧ LiteralBody quote body ∧
      Stretch depth rest final

theorem leaves_of_foldl {final : Nat} {nesting : Nesting} {cs : List Char}
    (h : cs.foldl next nesting = bare final) : nesting.Leaves final cs := by
  -- inside of quotes the text begins with the rest of the literal
  induction cs generalizing nesting with
  | nil =>
      obtain rfl : nesting = bare final := h
      exact .nil final
  | cons c cs ih =>
      have behind := ih h
      cases nesting with
      | bare depth =>
          simp only [next] at behind
          split at behind
          · next quote =>
            obtain ⟨body, rest, rfl, literal, more⟩ := behind
            exact .literal (by simpa using quote) literal more
          split at behind
          · next brace => subst brace; exact .openBrace behind
          split at behind
          · next brace => subst brace; exact .closeBrace behind
          · next noQuote noOpen noClose =>
            exact .plain (by simp_all) behind
      | quoted quote depth =>
          simp only [next] at behind
          split at behind
          · next backslash =>
            subst backslash
            obtain ⟨d, body, rest, rfl, literal, more⟩ := behind
            exact ⟨'\\' :: d :: body, rest, rfl, .escape d literal, more⟩
          split at behind
          · next ends => subst ends; exact ⟨[], cs, rfl, .nil, behind⟩
          · next noEscape noEnd =>
            obtain ⟨body, rest, rfl, literal, more⟩ := behind
            exact ⟨c :: body, rest, rfl, .plain noEnd noEscape literal, more⟩
      | escaped quote depth =>
          obtain ⟨body, rest, rfl, literal, more⟩ := behind
          exact ⟨c, body, rest, rfl, literal, more⟩

/-- A search passes a literal whole. -/
theorem foldl_literal {quote : Char} (h : quote ∈ ['"', '\'']) {body : List Char}
    (literal : LiteralBody quote body) (depth : Nat) (cs : List Char) :
    (quote :: body ++ quote :: cs).foldl next (bare depth) = cs.foldl next (bare depth) := by
  have begins : (bare depth).next quote = quoted quote depth := by
    simp only [List.mem_cons, List.not_mem_nil, or_false] at h
    simp [next, h]
  have noEscape : quote ≠ '\\' := by
    rintro rfl
    revert h
    decide
  rw [List.cons_append, List.foldl_cons, begins]
  induction literal with
  | nil => simp [next, noEscape]
  | plain noEnd plain _ ih => simpa [next, noEnd, plain] using ih
  | escape c _ ih => simpa [next] using ih

/-- A search is outside of quotes behind a stretch, and knows how many braces are open. -/
theorem foldl_eq_bare_iff {depth final : Nat} {cs : List Char} :
    cs.foldl next (bare depth) = bare final ↔ Stretch depth cs final := by
  constructor
  · intro h
    exact leaves_of_foldl h
  · intro h
    induction h with
    | nil depth => rfl
    | @plain c cs depth final ordinary _ ih =>
        have stays : (bare depth).next c = bare depth := by
          simp only [List.mem_cons, List.not_mem_nil, or_false, not_or] at ordinary
          simp [next, ordinary]
        rw [List.foldl_cons, stays, ih]
    | openBrace _ ih => exact ih
    | closeBrace _ ih => exact ih
    | literal quote literal _ ih => rw [foldl_literal quote literal, ih]

/-- The search for a closer finds the first one that is outside of quotes and braces. -/
theorem split?_eq_some_iff {closer cs before after : List Char} (ne : closer ≠ [])
    {nesting : Nesting} :
    split? closer nesting cs = some (before, after) ↔
      FirstSplit (fun text => text.foldl next nesting = bare 0) closer cs before after := by
  induction cs generalizing nesting before with
  | nil =>
      constructor
      · intro h
        cases h
      · intro place
        have nil := place.split
        simp [ne] at nil
  | cons c cs ih =>
      by_cases here : nesting = bare 0 ∧ closer <+: c :: cs
      · obtain ⟨rfl, rest, eq⟩ := here
        have outside : (fun text : List Char => text.foldl next (bare 0) = bare 0) [] := rfl
        rw [FirstSplit.of_prefix_iff outside eq, split?, if_pos ⟨rfl, by simp [← eq]⟩, ← eq,
          List.drop_left]
        simp [eq_comm]
      · have elsewhere : ¬ (nesting = bare 0 ∧ closer.isPrefixOf (c :: cs) = true) := by
          simpa [List.isPrefixOf_iff_prefix] using here
        rw [FirstSplit.cons_iff here, split?_cons_of elsewhere]
        simp only [List.foldl_cons, ← ih, passed, Option.map_eq_some_iff, Prod.exists,
          Prod.mk.injEq]
        constructor
        · rintro ⟨behind, _, found, rfl, rfl⟩
          exact ⟨behind, rfl, found⟩
        · rintro ⟨behind, rfl, found⟩
          exact ⟨behind, after, found, rfl, rfl⟩

end Nesting

/-- The search for a mark finds the first one. -/
theorem splitAtMark?_eq_some_iff {mark cs before after : List Char} (ne : mark ≠ []) :
    splitAtMark? mark cs = some (before, after) ↔
      FirstSplit (fun _ => True) mark cs before after := by
  induction cs generalizing before with
  | nil =>
      constructor
      · intro h
        cases h
      · intro place
        have nil := place.split
        simp [ne] at nil
  | cons c cs ih =>
      by_cases here : mark <+: c :: cs
      · obtain ⟨rest, eq⟩ := here
        rw [FirstSplit.of_prefix_iff trivial eq, splitAtMark?, if_pos (by simp [← eq]), ← eq,
          List.drop_left]
        simp [eq_comm]
      · have elsewhere : ¬ (mark.isPrefixOf (c :: cs) = true) := by
          simpa [List.isPrefixOf_iff_prefix] using here
        rw [FirstSplit.cons_iff (by simpa using here), splitAtMark?, if_neg elsewhere]
        simp only [← ih, Option.map_eq_some_iff, Prod.exists, Prod.mk.injEq]
        constructor
        · rintro ⟨behind, _, found, rfl, rfl⟩
          exact ⟨behind, rfl, found⟩
        · rintro ⟨behind, rfl, found⟩
          exact ⟨behind, after, found, rfl, rfl⟩

namespace Opener

/-- Whether a closer counts that has this text between it and the opener with its minus sign. -/
def Admits : Opener → List Char → Prop
  | tag _, text => Stretch 0 text 0
  | comment, _ => True

theorem closer_ne_nil (opener : Opener) : opener.closer ≠ [] := by
  cases opener with
  | tag form => cases form <;> decide
  | comment => decide

/-- The closer of a tag is the first one that counts. -/
theorem splitCloser?_eq_some_iff {opener : Opener} {cs before after : List Char} :
    opener.splitCloser? cs = some (before, after) ↔
      FirstSplit opener.Admits opener.closer cs before after := by
  cases opener with
  | tag form =>
      have admits : (tag form).Admits =
          fun text => text.foldl Nesting.next (.bare 0) = .bare 0 := by
        funext text
        exact propext Nesting.foldl_eq_bare_iff.symm
      rw [admits]
      exact Nesting.split?_eq_some_iff (tag form).closer_ne_nil
  | comment => exact splitAtMark?_eq_some_iff comment.closer_ne_nil

end Opener

/-! ## Tags -/

/-- What a tag is, behind its opener: a minus sign of the opener or none, an interior, a minus sign
of the closer or none, and the closer, which is the first that counts. A sign that is there is
always taken, the one of the opener first. -/
inductive Tag.Spans (tag : Tag) (inside rest : List Char) : Prop
  | intro (body : List Char) : inside = dash tag.openDash ++ body →
      (tag.openDash = false → body.head? ≠ some '-') →
      FirstSplit tag.opener.Admits tag.opener.closer body
        (tag.interior ++ dash tag.closeDash) rest →
      (tag.closeDash = false → tag.interior.getLast? ≠ some '-') → Tag.Spans tag inside rest

namespace Tag

theorem splitDash_eq_iff {cs body : List Char} {present : Bool} :
    splitDash cs = (present, body) ↔
      cs = dash present ++ body ∧ (present = false → body.head? ≠ some '-') := by
  constructor
  · intro h
    unfold splitDash at h
    split at h
    · cases h
      exact ⟨rfl, nofun⟩
    · next noDash =>
      cases h
      refine ⟨rfl, fun _ => ?_⟩
      intro head
      obtain ⟨rest, rfl⟩ := List.head?_eq_some_iff.mp head
      exact noDash rest rfl
  · rintro ⟨rfl, absent⟩
    cases present with
    | true => rfl
    | false =>
        unfold splitDash dash
        split
        · next eq =>
          simp only [Bool.false_eq_true, if_false, List.nil_append] at eq
          exact absurd (by simp [eq]) (absent rfl)
        · rfl

theorem splitEndDash_eq_iff {cs body : List Char} {present : Bool} :
    splitEndDash cs = (body, present) ↔
      cs = body ++ dash present ∧ (present = false → body.getLast? ≠ some '-') := by
  constructor
  · intro h
    have whole := splitEndDash_append cs
    rw [h] at whole
    refine ⟨whole.symm, ?_⟩
    rintro rfl last
    simp only [dash, Bool.false_eq_true, if_false, List.append_nil] at whole
    subst whole
    simp [splitEndDash, last] at h
  · rintro ⟨rfl, absent⟩
    cases present with
    | true => simp [splitEndDash, dash]
    | false => simpa [splitEndDash, dash] using absent rfl

/-- Tags are read where they are. -/
theorem read?_eq_some_iff {opener : Opener} {inside rest : List Char} {tag : Tag} :
    read? opener inside = some (tag, rest) ↔ tag.opener = opener ∧ tag.Spans inside rest := by
  constructor
  · intro h
    simp only [read?, Option.bind_eq_bind, Option.bind_eq_some_iff, Prod.exists, pure,
      Option.some.injEq, Prod.mk.injEq] at h
    obtain ⟨text, _, found, rfl, rfl⟩ := h
    obtain ⟨opened, noOpen⟩ := splitDash_eq_iff.mp (Prod.eta (splitDash inside)).symm
    obtain ⟨closed, noClose⟩ := splitEndDash_eq_iff.mp (Prod.eta (splitEndDash text)).symm
    rw [closed] at found
    exact ⟨rfl, .intro _ opened noOpen (Opener.splitCloser?_eq_some_iff.mp found) noClose⟩
  · rintro ⟨rfl, ⟨body, opened, noOpen, found, noClose⟩⟩
    have signs := splitDash_eq_iff.mpr ⟨opened, noOpen⟩
    have closer := Opener.splitCloser?_eq_some_iff.mpr found
    have ends := splitEndDash_eq_iff.mpr ⟨rfl, noClose⟩
    simp only [read?, signs, closer, ends, Option.bind_eq_bind, Option.bind_some]
    rfl

-- a minus sign that stands alone is the one of the opener
example : read? (.tag .block) "-%\x7d".toList = some (⟨.tag .block, true, [], false⟩, []) := by
  decide

end Tag

/-! ## Segmentation -/

/-- A text split at the leftmost of the openers in it. -/
structure FirstOpener (cs before : List Char) (opener : Opener) (inside : List Char) : Prop where
  split : cs = before ++ opener.spelling ++ inside
  first : ∀ earlier (other : Opener) others, cs = earlier ++ other.spelling ++ others →
    before.length ≤ earlier.length

theorem Opener.split?_eq_some_iff {cs inside : List Char} {opener : Opener} :
    split? cs = some (opener, inside) ↔ cs = opener.spelling ++ inside := by
  constructor
  · intro h
    exact (split?_append h).symm
  · rintro rfl
    exact split?_spelling opener inside

namespace FirstOpener

variable {cs before inside : List Char} {opener : Opener}

/-- An opener at the beginning of a text is the leftmost one. -/
theorem of_split?_iff {other : Opener} {rest : List Char}
    (here : Opener.split? cs = some (other, rest)) :
    FirstOpener cs before opener inside ↔ before = [] ∧ opener = other ∧ inside = rest := by
  have eq := Opener.split?_eq_some_iff.mp here
  constructor
  · intro place
    have nil := List.length_eq_zero_iff.mp (Nat.le_zero.mp (place.first [] other rest eq))
    subst nil
    have same := (Opener.split?_eq_some_iff.mpr place.split).symm.trans here
    simp only [Option.some.injEq, Prod.mk.injEq] at same
    exact ⟨rfl, same⟩
  · rintro ⟨rfl, rfl, rfl⟩
    exact ⟨eq, fun _ _ _ _ => Nat.zero_le _⟩

/-- In a text that does not begin with an opener, it stands behind the first character. -/
theorem cons_iff {c : Char} (none : Opener.split? (c :: cs) = none) :
    FirstOpener (c :: cs) before opener inside ↔
      ∃ behind, before = c :: behind ∧ FirstOpener cs behind opener inside := by
  have elsewhere : ∀ earlier (other : Opener) others,
      c :: cs = earlier ++ other.spelling ++ others →
        ∃ behind, earlier = c :: behind ∧ cs = behind ++ other.spelling ++ others := by
    intro earlier other others eq
    cases earlier with
    | nil => cases none.symm.trans (Opener.split?_eq_some_iff.mpr eq)
    | cons d behind =>
        simp only [List.cons_append, List.cons.injEq] at eq
        obtain ⟨rfl, eq⟩ := eq
        exact ⟨behind, rfl, eq⟩
  constructor
  · intro place
    obtain ⟨behind, rfl, split⟩ := elsewhere before opener inside place.split
    refine ⟨behind, rfl, split, ?_⟩
    intro earlier other others eq
    simpa using place.first (c :: earlier) other others (by simp [eq])
  · rintro ⟨behind, rfl, place⟩
    refine ⟨by simp [place.split], ?_⟩
    intro earlier other others eq
    obtain ⟨text, rfl, rest⟩ := elsewhere earlier other others eq
    simpa using place.first text other others rest

end FirstOpener

namespace Opener

variable {cs before inside : List Char} {opener : Opener}

/-- The opener that is found is the leftmost one. -/
theorem find?_eq_some_iff :
    find? cs = some (before, opener, inside) ↔ FirstOpener cs before opener inside := by
  induction cs generalizing before with
  | nil =>
      constructor
      · intro h
        cases h
      · intro place
        obtain ⟨c, eq⟩ := opener.exists_spelling_eq
        have nil := place.split
        simp [eq] at nil
  | cons c cs ih =>
      cases here : split? (c :: cs) with
      | some found =>
          rw [FirstOpener.of_split?_iff here, find?, here]
          simp [eq_comm, Prod.ext_iff]
      | none =>
          rw [FirstOpener.cons_iff here, find?_of_split?_eq_none here]
          simp only [← ih, Option.map_eq_some_iff, Prod.exists, Prod.mk.injEq]
          constructor
          · rintro ⟨behind, _, _, found, rfl, rfl, rfl⟩
            exact ⟨behind, rfl, found⟩
          · rintro ⟨behind, rfl, found⟩
            exact ⟨behind, opener, inside, found, rfl, rfl, rfl⟩

theorem find?_eq_none_iff : find? cs = none ↔ ∀ opener : Opener, ¬ opener.spelling <:+: cs := by
  constructor
  · rintro h opener ⟨before, rest, eq⟩
    induction cs generalizing before with
    | nil =>
        obtain ⟨c, spelled⟩ := opener.exists_spelling_eq
        simp [spelled] at eq
    | cons c cs ih =>
        rw [find?] at h
        split at h
        · cases h
        · next noOpener =>
          cases before with
          | nil => cases noOpener.symm.trans (split?_eq_some_iff.mpr eq.symm)
          | cons d before =>
              simp only [List.cons_append, List.cons.injEq] at eq
              exact ih (Option.map_eq_none_iff.mp h) before eq.2
  · intro h
    exact find?_eq_none h

end Opener

/-- How a source is cut: text, then a tag at the leftmost opener, and so on up to a text in which
there is no opener. -/
inductive Segmentation : List Char → Cut → Prop
  | text {cs : List Char} : (∀ opener : Opener, ¬ opener.spelling <:+: cs) →
      Segmentation cs (.text cs)
  | tag {cs t inside rest : List Char} {tag : Tag} {after : Cut} :
      FirstOpener cs t tag.opener inside → tag.Spans inside rest → Segmentation rest after →
        Segmentation cs (.tag t tag after)

/-- Whether all tags of a cut source are closed. -/
def Cut.Closed : Cut → Prop
  | .text _ => True
  | .unclosed .. => False
  | .tag _ _ after => after.Closed

/-- A source is cut in its segments, if all of its tags are closed. -/
theorem segmentation_iff {cs : List Char} {parts : Cut} :
    Segmentation cs parts ↔ cut cs = parts ∧ parts.Closed := by
  constructor
  · intro h
    induction h with
    | @text cs noOpener =>
        exact ⟨cut_of_find?_eq_none (Opener.find?_eq_none_iff.mpr noOpener), trivial⟩
    | @tag cs t inside rest tag after begins spans _ ih =>
        obtain ⟨rfl, closed⟩ := ih
        have find := Opener.find?_eq_some_iff.mpr begins
        have read := Tag.read?_eq_some_iff.mpr ⟨rfl, spans⟩
        exact ⟨cut_of_find?_eq_some find read, closed⟩
  · rintro ⟨rfl, closed⟩
    revert closed
    fun_induction cut cs with
    | case1 cs find => exact fun _ => .text (Opener.find?_eq_none_iff.mp find)
    | case2 => exact False.elim
    | case3 cs t opener inside find tag rest read ih =>
        intro closed
        obtain ⟨rfl, spans⟩ := Tag.read?_eq_some_iff.mp read
        exact .tag (Opener.find?_eq_some_iff.mp find) spans (ih closed)

/-! ## What texts lose -/

/-- What is kept of a text behind a tag, or at the beginning of a source. -/
inductive KeptBehind : Option Tag → List Char → List Char → Prop
  | start (t : List Char) : KeptBehind none t t
  | blanks {tag : Tag} {lead kept : List Char} : tag.closeDash = true →
      (∀ c ∈ lead, Text.isBlank c = true) →
      (∀ c, kept.head? = some c → Text.isBlank c = false) →
        KeptBehind (some tag) (lead ++ kept) kept
  | output {tag : Tag} (t : List Char) : tag.closeDash = false → tag.opener = .tag .output →
      KeptBehind (some tag) t t
  | lineFeed {tag : Tag} (kept : List Char) : tag.closeDash = false → tag.opener ≠ .tag .output →
      KeptBehind (some tag) ('\n' :: kept) kept
  | carriageReturn {tag : Tag} (kept : List Char) : tag.closeDash = false →
      tag.opener ≠ .tag .output → KeptBehind (some tag) ('\r' :: '\n' :: kept) kept
  | whole {tag : Tag} {t : List Char} : tag.closeDash = false → tag.opener ≠ .tag .output →
      ¬ ['\n'] <+: t → ¬ ['\r', '\n'] <+: t → KeptBehind (some tag) t t

/-- What is kept of a text before a tag, or at the end of a source. -/
inductive KeptBefore : Option Tag → List Char → List Char → Prop
  | ends (t : List Char) : KeptBefore none t t
  | whole {tag : Tag} (t : List Char) : tag.openDash = false → KeptBefore (some tag) t t
  | blanks {tag : Tag} {kept trail : List Char} : tag.openDash = true →
      (∀ c ∈ trail, Text.isBlank c = true) →
      (∀ c, kept.getLast? = some c → Text.isBlank c = false) →
        KeptBefore (some tag) (kept ++ trail) kept

/-- The result of a text between two tags. -/
def Trimmed (before after : Option Tag) (t result : List Char) : Prop :=
  ∃ kept, KeptBehind before t kept ∧ KeptBefore after kept result

theorem dropWhile_eq_iff {p : Char → Bool} {cs kept : List Char} :
    cs.dropWhile p = kept ↔
      ∃ lead, cs = lead ++ kept ∧ (∀ c ∈ lead, p c = true) ∧
        ∀ c, kept.head? = some c → p c = false := by
  constructor
  · rintro rfl
    refine ⟨cs.takeWhile p, List.takeWhile_append_dropWhile.symm, ?_, ?_⟩
    · intro c mem
      exact List.all_eq_true.mp List.all_takeWhile c mem
    · intro c head
      have stop := List.head?_dropWhile_not p cs
      rw [head] at stop
      simpa using stop
  · rintro ⟨lead, rfl, all, stop⟩
    exact (takeWhile_append_stop all stop).2

theorem Text.trimEnd_eq_iff {cs kept : List Char} :
    Text.trimEnd cs = kept ↔
      ∃ trail, cs = kept ++ trail ∧ (∀ c ∈ trail, Text.isBlank c = true) ∧
        ∀ c, kept.getLast? = some c → Text.isBlank c = false := by
  rw [Text.trimEnd, List.reverse_eq_iff, dropWhile_eq_iff]
  constructor
  · rintro ⟨lead, eq, all, stop⟩
    refine ⟨lead.reverse, ?_, by simpa using all, by simpa using stop⟩
    rw [← List.reverse_reverse cs, eq, List.reverse_append, List.reverse_reverse]
  · rintro ⟨trail, rfl, all, stop⟩
    exact ⟨trail.reverse, by simp, by simpa using all, by simpa using stop⟩

namespace Trimming

/-- What a text loses behind a tag, or at the beginning of a source. -/
def following : Option Tag → Trimming
  | none => nothing
  | some tag => behind tag

theorem split_lineEnd_eq_self {t : List Char} (noFeed : ¬ ['\n'] <+: t)
    (noReturn : ¬ ['\r', '\n'] <+: t) : lineEnd.split t = ([], t) := by
  unfold split
  split
  · next eq => cases eq
  · next cs _ => exact absurd ⟨cs, rfl⟩ noReturn
  · next cs _ => exact absurd ⟨cs, rfl⟩ noFeed
  · rfl
  · next eq => cases eq

/-- A text is trimmed to what is kept of it. -/
theorem keptBehind_iff {before : Option Tag} {t kept : List Char} :
    KeptBehind before t kept ↔ ((following before).split t).2 = kept := by
  constructor
  · intro h
    cases h with
    | start => cases t <;> rfl
    | @blanks tag lead kept dash all stop =>
        simp only [following, behind, dash, if_true, split]
        exact dropWhile_eq_iff.mpr ⟨lead, rfl, all, stop⟩
    | output _ noDash output =>
        simp only [following, behind, noDash, output, if_true, Bool.false_eq_true, if_false]
        cases t <;> rfl
    | lineFeed _ noDash noOutput => simp [following, behind, noDash, noOutput, split]
    | carriageReturn _ noDash noOutput => simp [following, behind, noDash, noOutput, split]
    | whole noDash noOutput noFeed noReturn =>
        simp [following, behind, noDash, noOutput, split_lineEnd_eq_self noFeed noReturn]
  · rintro rfl
    cases before with
    | none => cases t <;> exact .start _
    | some tag =>
        -- the dash of a closer comes before the rule for the sort of its tag
        by_cases dash : tag.closeDash = true
        · obtain ⟨lead, eq, all, stop⟩ := dropWhile_eq_iff.mp (Eq.refl (t.dropWhile Text.isBlank))
          simp only [following, behind, dash, if_true, split]
          conv => enter [2]; rw [eq]
          exact .blanks dash all stop
        · have noDash : tag.closeDash = false := by simpa using dash
          by_cases output : tag.opener = .tag .output
          · simp only [following, behind, noDash, output, if_true, Bool.false_eq_true, if_false]
            cases t <;> exact .output _ noDash output
          · simp only [following, behind, noDash, output, Bool.false_eq_true, if_false]
            by_cases feed : ['\n'] <+: t
            · obtain ⟨rest, rfl⟩ := feed
              exact .lineFeed _ noDash output
            by_cases crlf : ['\r', '\n'] <+: t
            · obtain ⟨rest, rfl⟩ := crlf
              exact .carriageReturn _ noDash output
            · rw [split_lineEnd_eq_self feed crlf]
              exact .whole noDash output feed crlf

end Trimming

theorem keptBefore_some_iff {tag : Tag} {t kept : List Char} :
    KeptBefore (some tag) t kept ↔ (if tag.openDash then Text.trimEnd t else t) = kept := by
  constructor
  · intro h
    cases h with
    | whole _ noDash => simp [noDash]
    | @blanks _ kept trail dash all stop =>
        rw [if_pos dash]
        exact Text.trimEnd_eq_iff.mpr ⟨trail, rfl, all, stop⟩
  · rintro rfl
    split
    · next dash =>
      obtain ⟨trail, eq, all, stop⟩ := Text.trimEnd_eq_iff.mp (Eq.refl (Text.trimEnd t))
      conv => enter [2]; rw [eq]
      exact .blanks dash all stop
    · next noDash => exact .whole _ (by simpa using noDash)

/-- At the end of a source, a text only loses what the tag in front of it takes. -/
theorem trimmed_none_iff {before : Option Tag} {t result : List Char} :
    Trimmed before none t result ↔ ((Trimming.following before).split t).2 = result := by
  constructor
  · rintro ⟨kept, behind, ends⟩
    cases ends
    exact Trimming.keptBehind_iff.mp behind
  · intro h
    exact ⟨result, Trimming.keptBehind_iff.mpr h, .ends _⟩

/-- Between two tags, a text is trimmed from both sides. -/
theorem trimmed_some_iff {before : Option Tag} {tag : Tag} {t result : List Char} :
    Trimmed before (some tag) t result ↔
      (if tag.openDash then Text.trimEnd ((Trimming.following before).split t).2
        else ((Trimming.following before).split t).2) = result := by
  constructor
  · rintro ⟨kept, behind, ends⟩
    obtain rfl := Trimming.keptBehind_iff.mp behind
    exact keptBefore_some_iff.mp ends
  · intro h
    exact ⟨_, Trimming.keptBehind_iff.mpr rfl, keptBefore_some_iff.mpr h⟩

/-! ## What is left of a source -/

/-- The tokens that a tag leaves. -/
inductive Tag.Contributes (tag : Tag) : List Kind → Prop
  | comment : tag.opener = .comment → tag.Contributes []
  | tag {form : TagForm} {row : List (List Char × Lexeme)} {trail : List Char} :
      tag.opener = .tag form → Lexeme.readAll tag.interior = .ok (row, trail) →
        tag.Contributes (.opening form :: row.map (fun entry => entry.2.kind) ++ [.closing form])

/-- What a segmentation leaves behind a tag or at the beginning of a source: the results of its
texts, and the tokens of all its parts and of the end. -/
inductive Cut.Shows : Option Tag → Cut → List (List Char) → List Kind → Prop
  | text {before : Option Tag} {t result : List Char} : Trimmed before none t result →
      Cut.Shows before (.text t) [result] (Cut.textRow result ++ [.eof])
  | tag {before : Option Tag} {t result : List Char} {tag : Tag} {after : Cut}
      {inner more : List Kind} {results : List (List Char)} :
      Trimmed before (some tag) t result → tag.Contributes inner →
        Cut.Shows (some tag) after results more →
          Cut.Shows before (.tag t tag after) (result :: results)
            (Cut.textRow result ++ inner ++ more)

/-- The text of a token that is one. -/
def Token.Kind.text? : Kind → Option (List Char)
  | .text value => some value.toList
  | _ => none

theorem Token.Kind.text?_of_isInner {kind : Kind} (h : kind.IsInner) : kind.text? = none := by
  cases kind with
  | text => exact h.elim
  | _ => rfl

namespace Tag

theorem contributes_iff {tag : Tag} (line : Nat) {inner : List Kind} :
    (∃ tokens, tag.tokens line = .ok tokens ∧ kinds tokens = inner) ↔ tag.Contributes inner := by
  constructor
  · rintro ⟨tokens, h, rfl⟩
    unfold Tag.tokens at h
    split at h
    · next comment =>
      cases h
      exact .comment comment
    · next form opener =>
      split at h
      · cases h
      · next row trail read =>
        cases h
        rw [Token.kinds_append, Token.kinds_cons, kinds_tokens]
        exact .tag opener read
  · intro h
    cases h with
    | comment comment => exact ⟨[], by simp [tokens, comment], rfl⟩
    | @tag form row trail opener read =>
        refine ⟨⟨.opening form, line⟩ :: Lexeme.tokens line row ++
          [⟨.closing form, line + Text.lineFeeds tag.interior⟩], ?_, ?_⟩
        · simp only [tokens, opener, read]
        · rw [Token.kinds_append, Token.kinds_cons, kinds_tokens]
          rfl

/-- A tag leaves no text. -/
theorem Contributes.filterMap_text? {tag : Tag} {inner : List Kind} (h : tag.Contributes inner) :
    inner.filterMap Kind.text? = [] := by
  cases h with
  | comment => rfl
  | @tag form row trail _ read =>
      have inside := Lexeme.kind_isInner_of_readAll read
      simp only [List.filterMap_append, List.filterMap_cons, Kind.text?, List.filterMap_nil,
        List.append_nil, List.filterMap_map, List.filterMap_eq_nil_iff]
      intro entry mem
      exact Kind.text?_of_isInner (inside entry mem)

end Tag

namespace Cut

theorem filterMap_textRow (t : List Char) :
    (textRow t).filterMap Kind.text? = [t].filter (· ≠ []) := by
  by_cases empty : t = []
  · simp [textRow, empty]
  · simp [textRow, empty, Kind.text?]

/-- The texts of a source are the results that are not empty. -/
theorem Shows.filterMap_text? {before : Option Tag} {parts : Cut} {results : List (List Char)}
    {ks : List Kind} (h : parts.Shows before results ks) :
    ks.filterMap Kind.text? = results.filter (· ≠ []) := by
  induction h with
  | @text before t result _ =>
      rw [List.filterMap_append, filterMap_textRow]
      simp [Kind.text?]
  | @tag before t result tag after inner more results _ inside _ ih =>
      rw [List.filterMap_append, List.filterMap_append, filterMap_textRow,
        inside.filterMap_text?, ih, List.append_nil, ← List.filter_append]
      rfl

/-- The tokens of a cut source are what is left of its parts, if all of its tags are closed. -/
theorem shows_iff (before : Option Tag) {parts : Cut} (line : Nat) {ks : List Kind} :
    (∃ tokens, parts.tokens line (.following before) = .ok tokens ∧ kinds tokens = ks) ↔
      parts.Closed ∧ ∃ results, parts.Shows before results ks := by
  -- the kinds do not depend on the line, which grows by each tag and is general here
  induction parts generalizing line before ks with
  | text t =>
      constructor
      · rintro ⟨tokens, h, rfl⟩
        cases h
        rw [Token.kinds_append, kinds_textToken]
        exact ⟨trivial, _, .text (trimmed_none_iff.mpr rfl)⟩
      · rintro ⟨-, results, h⟩
        cases h with
        | text trimmed =>
            obtain rfl := trimmed_none_iff.mp trimmed
            refine ⟨_, rfl, ?_⟩
            rw [Token.kinds_append, kinds_textToken]
            rfl
  | unclosed t opener rest =>
      constructor
      · rintro ⟨tokens, h, -⟩
        cases h
      · rintro ⟨closed, -⟩
        exact closed.elim
  | tag t found after ih =>
      constructor
      · rintro ⟨tokens, h, rfl⟩
        obtain ⟨inside, more, first, second, rfl⟩ := tokens_tag_eq_ok_iff.mp h
        obtain ⟨closed, results, shown⟩ := (ih (some found) _).mp ⟨more, second, rfl⟩
        have contributes := (Tag.contributes_iff _).mp ⟨inside, first, rfl⟩
        rw [Token.kinds_append, Token.kinds_append, kinds_textToken]
        exact ⟨closed, _, .tag (trimmed_some_iff.mpr rfl) contributes shown⟩
      · rintro ⟨closed, results, h⟩
        cases h with
        | @tag _ _ result _ _ inner more others trimmed contributes shown =>
            obtain rfl := trimmed_some_iff.mp trimmed
            obtain ⟨inside, first, rfl⟩ :=
              (Tag.contributes_iff (line + Text.lineFeeds t)).mpr contributes
            obtain ⟨tokens, second, rfl⟩ := (ih (some found)
              (line + Text.lineFeeds t + Text.lineFeeds found.spelling)).mpr ⟨closed, others, shown⟩
            refine ⟨_, tokens_tag_eq_ok_iff.mpr ⟨inside, tokens, first, second, rfl⟩, ?_⟩
            rw [Token.kinds_append, Token.kinds_append, kinds_textToken]
            rfl

end Cut

/-- A source has tokens if it has a segmentation and the interiors of its tags can be read. It has
no other segmentation then, its tokens are what is left of the parts, and the texts among them are
the results of its texts that are not empty. -/
theorem tokenize_segmentation (source : String) (ks : List Kind) :
    (∃ tokens, tokenize source = .ok tokens ∧ kinds tokens = ks) ↔
      ∃ parts results, (∀ other, Segmentation source.toList other ↔ other = parts) ∧
        parts.Shows none results ks ∧ ks.filterMap Kind.text? = results.filter (· ≠ []) := by
  constructor
  · intro h
    obtain ⟨closed, results, shown⟩ := (Cut.shows_iff none 1).mp h
    refine ⟨cut source.toList, results, ?_, shown, shown.filterMap_text?⟩
    intro other
    rw [segmentation_iff]
    constructor
    · rintro ⟨rfl, -⟩
      rfl
    · rintro rfl
      exact ⟨rfl, closed⟩
  · rintro ⟨parts, results, only, shown, -⟩
    obtain ⟨rfl, closed⟩ := segmentation_iff.mp ((only parts).mpr rfl)
    exact (Cut.shows_iff none 1).mpr ⟨closed, results, shown⟩

end SheetMarkup
