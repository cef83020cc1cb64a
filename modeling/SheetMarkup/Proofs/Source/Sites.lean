import SheetMarkup.Proofs.Lexeme.Munch
import SheetMarkup.Proofs.Source.Segmentation

/-!
# Where tokens stand

Every token of a source stands at a place in it: an opener or a closer where it is written, a lexeme
behind the blanks before it, a text behind what it loses at its beginning, and the end behind
everything. `Site` is such a place, told by what is before it, and `Cut.Sites` finds the sites of
the tokens of a segmentation without counting any lines. The sites lie in the source and follow one
another (`Site.Ordered`), and a token is on the line that has as many line feeds before it as its
site has (`Cut.tokens_eq_ok_iff`).

A tag that is reported as not closed is the first one of which that is so, and the report is about
the line of its opener (`Cut.exists_unclosed_iff`). Both together are the main result,
`tokenize_lines`.
-/

namespace SheetMarkup

open Token (Kind)

/-! ## Sites -/

/-- A place in a source at which a token stands: what is before it, the characters of the token, and
its kind. -/
structure Site where
  before : List Char
  text : List Char
  kind : Kind

namespace Site

/-- The token at a site, on the line where the site begins. -/
def token (site : Site) : Token := ⟨site.kind, 1 + Text.lineFeeds site.before⟩

/-- Sites from one place of a source up to another, in order and apart from each other. -/
structure Ordered (low high : List Char) (sites : List Site) : Prop where
  within : ∀ site ∈ sites, low <+: site.before ∧ site.before ++ site.text <+: high
  apart : sites.Pairwise fun a b => a.before ++ a.text <+: b.before

namespace Ordered

variable {low middle high : List Char} {sites more : List Site}

theorem nil (low high : List Char) : Ordered low high [] where
  within := by simp
  apart := .nil

theorem singleton {site : Site} (below : low <+: site.before)
    (above : site.before ++ site.text <+: high) : Ordered low high [site] where
  within := by simpa using ⟨below, above⟩
  apart := List.pairwise_singleton _ _

theorem mono {low' high' : List Char} (h : Ordered low high sites) (below : low' <+: low)
    (above : high <+: high') : Ordered low' high' sites where
  within := by
    intro site mem
    exact ⟨below.trans (h.within site mem).1, (h.within site mem).2.trans above⟩
  apart := h.apart

/-- Sites up to a place and sites from it on. -/
theorem append (h : Ordered low middle sites) (h' : Ordered middle high more)
    (below : low <+: middle) (above : middle <+: high) : Ordered low high (sites ++ more) where
  within := by
    intro site mem
    rcases List.mem_append.mp mem with mem | mem
    · exact ⟨(h.within site mem).1, (h.within site mem).2.trans above⟩
    · exact ⟨below.trans (h'.within site mem).1, (h'.within site mem).2⟩
  apart := by
    apply List.pairwise_append.mpr
    refine ⟨h.apart, h'.apart, ?_⟩
    intro a mem b mem'
    exact (h.within a mem).2.trans (h'.within b mem').1

/-- Tokens at sites in order are on lines that never go down. -/
theorem pairwise_line (h : Ordered low high sites) :
    ((sites.map token).map Token.line).Pairwise (· ≤ ·) := by
  rw [List.map_map, List.pairwise_map]
  refine h.apart.imp ?_
  intro a b behind
  have part : a.before <+: b.before := (List.prefix_append _ _).trans behind
  exact Nat.add_le_add_left (part.sublist.count_le _) 1

end Ordered

end Site

/-- The sites of the lexemes in a row behind some text. -/
def Lexeme.sites (before : List Char) : List (List Char × Lexeme) → List Site
  | [] => []
  | (lead, lexeme) :: row =>
    ⟨before ++ lead, lexeme.spelling, lexeme.kind⟩ ::
      sites (before ++ lead ++ lexeme.spelling) row

/-- The sites of a tag behind some text. A comment has none; another tag has that of its opener,
those of the lexemes in its interior, and that of its closer. -/
inductive Tag.Sites (before : List Char) (tag : Tag) : List Site → Prop
  | comment : tag.opener = .comment → Tag.Sites before tag []
  | tag {form : TagForm} {row : List (List Char × Lexeme)} {trail : List Char} :
      tag.opener = .tag form → Lexeme.Munched tag.interior row trail →
        Tag.Sites before tag
          (⟨before, tag.opener.spelling, .opening form⟩ ::
            Lexeme.sites (before ++ tag.opener.spelling ++ dash tag.openDash) row ++
            [⟨before ++ tag.opener.spelling ++ dash tag.openDash ++ tag.interior ++
              dash tag.closeDash, tag.opener.closer, .closing form⟩])

/-- The site of what is left of a text, if anything is. -/
def textSite (before result : List Char) : List Site :=
  if result = [] then [] else [⟨before, result, .text (String.ofList result)⟩]

/-- The sites of a segmentation behind some text, at the beginning of a source or behind a tag. What
is left of a text stands behind what the text loses at its beginning. -/
inductive Cut.Sites : Option Tag → List Char → Cut → List Site → Prop
  | text {previous : Option Tag} {before lost kept : List Char} :
      KeptBehind previous (lost ++ kept) kept →
        Cut.Sites previous before (.text (lost ++ kept))
          (textSite (before ++ lost) kept ++ [⟨before ++ (lost ++ kept), [], .eof⟩])
  | tag {previous : Option Tag} {before lost kept result : List Char} {tag : Tag} {after : Cut}
      {inner more : List Site} : KeptBehind previous (lost ++ kept) kept →
        KeptBefore (some tag) kept result → tag.Sites (before ++ (lost ++ kept)) inner →
          Cut.Sites (some tag) (before ++ (lost ++ kept) ++ tag.spelling) after more →
            Cut.Sites previous before (.tag (lost ++ kept) tag after)
              (textSite (before ++ lost) result ++ inner ++ more)

/-! ## Sites are in order -/

namespace Lexeme

theorem ordered_sites (before : List Char) (row : List (List Char × Lexeme)) :
    Site.Ordered before (before ++ spellAll row) (sites before row) := by
  induction row generalizing before with
  | nil => exact .nil _ _
  | cons entry row ih =>
      obtain ⟨lead, lexeme⟩ := entry
      have first : Site.Ordered before (before ++ lead ++ lexeme.spelling)
          [⟨before ++ lead, lexeme.spelling, lexeme.kind⟩] :=
        .singleton (List.prefix_append _ _) List.prefix_rfl
      have whole : before ++ spellAll ((lead, lexeme) :: row) =
          before ++ lead ++ lexeme.spelling ++ spellAll row := by
        simp [spellAll]
      rw [whole]
      exact first.append (ih _) (by simp) (List.prefix_append _ _)

end Lexeme

theorem ordered_textSite (before lost : List Char) {kept result : List Char}
    (h : result <+: kept) :
    Site.Ordered before (before ++ (lost ++ kept)) (textSite (before ++ lost) result) := by
  unfold textSite
  split
  · exact .nil _ _
  · apply Site.Ordered.singleton (List.prefix_append _ _)
    simpa using h

theorem Tag.Sites.ordered {before : List Char} {tag : Tag} {sites : List Site}
    (h : tag.Sites before sites) : Site.Ordered before (before ++ tag.spelling) sites := by
  cases h with
  | comment => exact .nil _ _
  | @tag form row trail _ munched =>
      let inside := before ++ tag.opener.spelling ++ dash tag.openDash
      let behind := inside ++ tag.interior ++ dash tag.closeDash
      have whole : before ++ tag.spelling = behind ++ tag.opener.closer := by
        simp [behind, inside, spelling]
      have opener : Site.Ordered before inside [⟨before, tag.opener.spelling, .opening form⟩] :=
        .singleton List.prefix_rfl (List.prefix_append _ _)
      have closer : Site.Ordered behind (behind ++ tag.opener.closer)
          [⟨behind, tag.opener.closer, .closing form⟩] :=
        .singleton List.prefix_rfl List.prefix_rfl
      -- the lexemes and the blanks behind them make up the interior
      have spelled := Lexeme.readAll_append (Lexeme.readAll_eq_ok_iff.mpr munched)
      have reach : inside ++ Lexeme.spellAll row <+: behind := by
        simp [behind, ← spelled]
      rw [whole]
      have lexemes := (Lexeme.ordered_sites inside row).mono List.prefix_rfl reach
      have opened := opener.append lexemes (by simp [inside]) (by simp [behind])
      exact opened.append closer (by simp [behind, inside]) (List.prefix_append _ _)

theorem KeptBefore.isPrefix {next : Option Tag} {t result : List Char}
    (h : KeptBefore next t result) : result <+: t := by
  cases h with
  | ends | whole => exact List.prefix_rfl
  | blanks => exact List.prefix_append _ _

namespace Cut.Sites

variable {previous : Option Tag} {before : List Char} {parts : Cut} {sites : List Site}

/-- The sites of a segmentation lie in what was cut. -/
theorem ordered (h : parts.Sites previous before sites) :
    Site.Ordered before (before ++ parts.spelling) sites := by
  induction h with
  | @text previous before lost kept _ =>
      have ends : Site.Ordered (before ++ (lost ++ kept)) (before ++ (lost ++ kept))
          [⟨before ++ (lost ++ kept), [], .eof⟩] :=
        .singleton List.prefix_rfl (by simp)
      exact (ordered_textSite before lost List.prefix_rfl).append ends (List.prefix_append _ _)
        List.prefix_rfl
  | @tag previous before lost kept result tag after inner more _ left inside _ ih =>
      have text := ordered_textSite before lost left.isPrefix
      have whole : before ++ (Cut.tag (lost ++ kept) tag after).spelling =
          before ++ (lost ++ kept) ++ tag.spelling ++ after.spelling := by
        simp [spelling]
      rw [whole]
      have upToTag := text.append inside.ordered (List.prefix_append _ _) (List.prefix_append _ _)
      exact upToTag.append ih (by simp) (List.prefix_append _ _)

/-- The last site is that of the end, behind everything. -/
theorem getLast?_eq (h : parts.Sites previous before sites) :
    sites.getLast? = some ⟨before ++ parts.spelling, [], .eof⟩ := by
  induction h with
  | text => simp [spelling]
  | tag _ _ _ _ ih => simp [ih, spelling]

end Cut.Sites

/-! ## Tokens stand at sites -/

theorem lineFeeds_opener (opener : Opener) : Text.lineFeeds opener.spelling = 0 := by
  cases opener with
  | tag form => cases form <;> rfl
  | comment => rfl

theorem lineFeeds_dash (present : Bool) : Text.lineFeeds (Tag.dash present) = 0 := by
  cases present <;> rfl

theorem Lexeme.map_token_sites (before : List Char) (row : List (List Char × Lexeme)) :
    (sites before row).map Site.token = tokens (1 + Text.lineFeeds before) row := by
  induction row generalizing before with
  | nil => rfl
  | cons entry row ih =>
      obtain ⟨lead, lexeme⟩ := entry
      rw [sites, List.map_cons, ih, tokens]
      simp [Site.token, Text.lineFeeds_append, Nat.add_assoc]

theorem map_token_textSite (before result : List Char) :
    (textSite before result).map Site.token = textToken (1 + Text.lineFeeds before) result := by
  unfold textSite textToken
  split <;> rfl

/-- The tokens of a tag are those at its sites. -/
theorem Tag.tokens_eq_ok_iff {tag : Tag} (before : List Char) {tokens : List Token} :
    tag.tokens (1 + Text.lineFeeds before) = .ok tokens ↔
      ∃ sites, tag.Sites before sites ∧ tokens = sites.map Site.token := by
  constructor
  · intro h
    unfold Tag.tokens at h
    split at h
    · next comment =>
      cases h
      exact ⟨[], .comment comment, rfl⟩
    · next form opener =>
      split at h
      · cases h
      · next row trail read =>
        cases h
        refine ⟨_, .tag opener (Lexeme.readAll_eq_ok_iff.mp read), ?_⟩
        simp [Lexeme.map_token_sites, Site.token, Text.lineFeeds_append, lineFeeds_opener,
          lineFeeds_dash, Nat.add_assoc]
  · rintro ⟨sites, h, rfl⟩
    cases h with
    | comment comment => simp [Tag.tokens, comment]
    | tag opener munched =>
        simp [Tag.tokens, opener, Lexeme.readAll_eq_ok_iff.mpr munched, Lexeme.map_token_sites,
          Site.token, Text.lineFeeds_append, lineFeeds_opener, lineFeeds_dash, Nat.add_assoc]

namespace Trimming

/-- Some of a text is kept, and what it loses stands before that. -/
theorem exists_keptBehind (previous : Option Tag) (t : List Char) :
    ∃ lost kept, t = lost ++ kept ∧ KeptBehind previous (lost ++ kept) kept := by
  refine ⟨_, _, (split_append (following previous) t).symm, ?_⟩
  rw [split_append]
  exact keptBehind_iff.mpr rfl

theorem split_of_keptBehind {previous : Option Tag} {lost kept : List Char}
    (h : KeptBehind previous (lost ++ kept) kept) :
    (following previous).split (lost ++ kept) = (lost, kept) := by
  have second := keptBehind_iff.mp h
  have whole := split_append (following previous) (lost ++ kept)
  rw [second] at whole
  exact Prod.ext (List.append_cancel_right whole) second

end Trimming

namespace Cut

section Kept

variable {previous : Option Tag} {lost kept : List Char} (before : List Char)
  (behind : KeptBehind previous (lost ++ kept) kept)

include behind

theorem tokens_text_sites :
    (text (lost ++ kept)).tokens (1 + Text.lineFeeds before) (.following previous) =
      .ok (List.map Site.token (textSite (before ++ lost) kept ++
        [⟨before ++ (lost ++ kept), [], .eof⟩])) := by
  rw [List.map_append, map_token_textSite]
  simp [tokens, Trimming.split_of_keptBehind behind, Site.token, Text.lineFeeds_append,
    Nat.add_assoc]

theorem tokens_tag_sites_iff {found : Tag} {after : Cut} {result : List Char}
    (left : KeptBefore (some found) kept result) {tokens : List Token} :
    (tag (lost ++ kept) found after).tokens (1 + Text.lineFeeds before) (.following previous) =
        .ok tokens ↔
      ∃ inner more, found.Sites (before ++ (lost ++ kept)) inner ∧
        after.tokens (1 + Text.lineFeeds (before ++ (lost ++ kept) ++ found.spelling))
          (.behind found) = .ok more ∧
        tokens = (textSite (before ++ lost) result ++ inner).map Site.token ++ more := by
  have start : 1 + Text.lineFeeds before + Text.lineFeeds (lost ++ kept) =
      1 + Text.lineFeeds (before ++ (lost ++ kept)) := by
    rw [Text.lineFeeds_append before, Nat.add_assoc]
  have text : textToken (1 + Text.lineFeeds before + Text.lineFeeds lost) result =
      (textSite (before ++ lost) result).map Site.token := by
    rw [map_token_textSite, Text.lineFeeds_append, Nat.add_assoc]
  rw [tokens_tag_eq_ok_iff, Trimming.split_of_keptBehind behind, keptBefore_some_iff.mp left,
    start, text, Nat.add_assoc, ← Text.lineFeeds_append]
  simp only [Tag.tokens_eq_ok_iff, List.map_append]
  constructor
  · rintro ⟨_, more, ⟨inner, sites, rfl⟩, second, rfl⟩
    exact ⟨inner, more, sites, second, rfl⟩
  · rintro ⟨inner, more, sites, second, rfl⟩
    exact ⟨_, more, ⟨inner, sites, rfl⟩, second, rfl⟩

end Kept

/-- The tokens of a source are those at its sites, if all of its tags are closed. -/
theorem tokens_eq_ok_iff (previous : Option Tag) (before : List Char) {parts : Cut}
    {tokens : List Token} :
    parts.tokens (1 + Text.lineFeeds before) (.following previous) = .ok tokens ↔
      parts.Closed ∧ ∃ sites, parts.Sites previous before sites ∧
        tokens = sites.map Site.token := by
  -- what stands before the cut grows by each tag, so it is general here
  induction parts generalizing previous before tokens with
  | text t =>
      constructor
      · intro h
        obtain ⟨lost, kept, rfl, behind⟩ := Trimming.exists_keptBehind previous t
        cases (tokens_text_sites before behind).symm.trans h
        exact ⟨trivial, _, .text behind, rfl⟩
      · rintro ⟨-, sites, h, rfl⟩
        cases h with
        | text behind => exact tokens_text_sites before behind
  | unclosed t opener rest =>
      constructor
      · intro h
        cases h
      · rintro ⟨closed, -⟩
        exact closed.elim
  | tag t found after ih =>
      constructor
      · intro h
        obtain ⟨lost, kept, rfl, behind⟩ := Trimming.exists_keptBehind previous t
        have left : KeptBefore (some found) kept _ := keptBefore_some_iff.mpr rfl
        obtain ⟨inner, more, inside, second, rfl⟩ := (tokens_tag_sites_iff before behind left).mp h
        obtain ⟨closed, others, later, rfl⟩ := (ih (some found) _).mp second
        exact ⟨closed, _, .tag behind left inside later, by simp⟩
      · rintro ⟨closed, sites, h, rfl⟩
        cases h with
        | @tag _ _ _ _ _ _ _ inner others behind left inside later =>
            have second := (ih (some found) _).mpr ⟨closed, others, later, rfl⟩
            apply (tokens_tag_sites_iff before behind left).mpr
            exact ⟨inner, _, inside, second, by simp⟩

end Cut

/-! ## Tags that are not closed -/

/-- The first tag of a source that is not closed, with what stands before it. The tags before that
one are closed, and leave tokens or are comments. -/
inductive FirstUnclosed : List Char → List Char → Opener → Prop
  | here {cs t inside : List Char} {opener : Opener} : FirstOpener cs t opener inside →
      (∀ tag : Tag, tag.opener = opener → ∀ rest, ¬ tag.Spans inside rest) →
        FirstUnclosed cs t opener
  | behind {cs t inside rest before : List Char} {tag : Tag} {inner : List Kind}
      {opener : Opener} : FirstOpener cs t tag.opener inside → tag.Spans inside rest →
        tag.Contributes inner → FirstUnclosed rest before opener →
          FirstUnclosed cs (t ++ tag.spelling ++ before) opener

/-- The first tag that is not closed is reported, on the line of its opener. -/
theorem FirstUnclosed.tokens_eq_error {cs before : List Char} {opener : Opener}
    (h : FirstUnclosed cs before opener) (line : Nat) (trimming : Trimming) :
    (cut cs).tokens line trimming =
      .error (.onLine (.unclosed opener) (line + Text.lineFeeds before)) := by
  induction h generalizing line trimming with
  | @here cs t inside opener begins unclosed =>
      have find := Opener.find?_eq_some_iff.mpr begins
      have read : Tag.read? opener inside = none := by
        apply Option.eq_none_iff_forall_ne_some.mpr
        rintro ⟨tag, rest⟩ found
        obtain ⟨same, spans⟩ := Tag.read?_eq_some_iff.mp found
        exact unclosed tag same rest spans
      rw [cut_of_read?_eq_none find read]
      rfl
  | @behind cs t inside rest before tag inner opener begins spans contributes _ ih =>
      have find := Opener.find?_eq_some_iff.mpr begins
      have read := Tag.read?_eq_some_iff.mpr ⟨rfl, spans⟩
      obtain ⟨inside, first, -⟩ :=
        (Tag.contributes_iff (line + Text.lineFeeds t)).mpr contributes
      rw [cut_of_find?_eq_some find read]
      apply Cut.tokens_tag_eq_error_iff.mpr
      refine .inr ⟨inside, first, ?_⟩
      rw [ih]
      simp [Text.lineFeeds_append, Nat.add_assoc]

/-- Only the first tag that is not closed is ever reported as such. -/
theorem Cut.firstUnclosed_of_tokens {cs : List Char} {line : Nat} {trimming : Trimming}
    {report : Report} {opener : Opener} (h : (cut cs).tokens line trimming = .error report)
    (cause : report.cause = .unclosed opener) : ∃ before, FirstUnclosed cs before opener := by
  fun_induction cut cs generalizing line trimming with
  | case1 => cases h
  | case2 cs t opener' inside find read =>
      cases h
      cases cause
      refine ⟨t, .here (Opener.find?_eq_some_iff.mp find) ?_⟩
      intro tag same rest spans
      have found := Tag.read?_eq_some_iff.mpr ⟨same, spans⟩
      cases read.symm.trans found
  | case3 cs t opener' inside find tag rest read ih =>
      obtain ⟨rfl, spans⟩ := Tag.read?_eq_some_iff.mp read
      rcases Cut.tokens_tag_eq_error_iff.mp h with failed | ⟨inner, first, failed⟩
      · -- a fault inside of the tag is reported as something else
        obtain ⟨fault, rfl⟩ := tag.exists_fault failed
        cases fault <;> cases cause
      · obtain ⟨before, unclosed⟩ := ih failed
        have contributes := (Tag.contributes_iff _).mp ⟨inner, first, rfl⟩
        exact ⟨_, .behind (Opener.find?_eq_some_iff.mp find) spans contributes unclosed⟩

/-- A tag that is reported as not closed is the first one, and the line is that of its opener. -/
theorem Cut.exists_unclosed_iff {cs : List Char} {line : Nat} {trimming : Trimming}
    {report : Report} {opener : Opener} :
    (cut cs).tokens line trimming = .error report ∧ report.cause = .unclosed opener ↔
      ∃ before, FirstUnclosed cs before opener ∧
        report = .onLine (.unclosed opener) (line + Text.lineFeeds before) := by
  constructor
  · rintro ⟨failed, cause⟩
    obtain ⟨before, unclosed⟩ := firstUnclosed_of_tokens failed cause
    cases failed.symm.trans (unclosed.tokens_eq_error line trimming)
    exact ⟨before, unclosed, rfl⟩
  · rintro ⟨before, unclosed, rfl⟩
    exact ⟨unclosed.tokens_eq_error line trimming, rfl⟩

/-! ## The lines of a source -/

/-- Every token of a source is on the line where it stands: one more than there are line feeds
before its site. The sites are in the order of the source, so the lines never go down, and the end
is on its last line. A tag that is reported as not closed is the first one of which that is so, and
it is reported on the line of its opener. -/
theorem tokenize_lines (source : String) :
    (∀ tokens, tokenize source = .ok tokens ↔
      ∃ parts sites, Segmentation source.toList parts ∧ parts.Sites none [] sites ∧
        Site.Ordered [] source.toList sites ∧ tokens = sites.map Site.token ∧
        (tokens.map Token.line).Pairwise (· ≤ ·) ∧
        tokens.getLast? = some ⟨.eof, 1 + Text.lineFeeds source.toList⟩) ∧
    ∀ report opener, tokenize source = .error report ∧ report.cause = .unclosed opener ↔
      ∃ before, FirstUnclosed source.toList before opener ∧
        report = .onLine (.unclosed opener) (1 + Text.lineFeeds before) := by
  refine ⟨fun tokens => ?_, fun report opener => Cut.exists_unclosed_iff⟩
  have sited : tokenize source = .ok tokens ↔ (cut source.toList).Closed ∧
      ∃ sites, (cut source.toList).Sites none [] sites ∧ tokens = sites.map Site.token :=
    Cut.tokens_eq_ok_iff none []
  constructor
  · intro h
    obtain ⟨closed, sites, stand, rfl⟩ := sited.mp h
    have ordered := stand.ordered
    have last := stand.getLast?_eq
    simp only [List.nil_append, spelling_cut] at ordered last
    refine ⟨_, sites, segmentation_iff.mpr ⟨rfl, closed⟩, stand, ordered, rfl,
      ordered.pairwise_line, ?_⟩
    rw [List.getLast?_map, last]
    rfl
  · rintro ⟨parts, sites, segmentation, stand, -, rfl, -, -⟩
    obtain ⟨rfl, closed⟩ := segmentation_iff.mp segmentation
    exact sited.mpr ⟨closed, sites, stand, rfl⟩

/-- A letter of several bytes moves no line, and text that is trimmed leaves its lines counted. -/
example : tokenize "é\n\x7b\x7b-\n e -\x7d\x7d\n\nx" =
    .ok [⟨.text "é", 1⟩, ⟨.opening .output, 2⟩, ⟨.name "e", 3⟩, ⟨.closing .output, 3⟩,
      ⟨.text "x", 5⟩, ⟨.eof, 5⟩] := by
  cbv

end SheetMarkup
