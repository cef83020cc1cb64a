import SheetMarkup.Proofs.Expr.Grammar
import SheetMarkup.Source.Tokens

/-!
# The shape of a token list

The tokens of a source are texts and whole tags, one after another, and then the end (`Segments`).
What stands between the delimiters of a tag are names, literals and symbols. The lines of the tokens
climb: they never go down from one token to the next, and they stay within the lines of the source
(`Climbs`).
-/

namespace SheetMarkup

/-! ## Climbing lines -/

/-- Lines from one to another that never go down. -/
inductive Climbs : Nat → Nat → List Nat → Prop
  | nil {low high : Nat} : low ≤ high → Climbs low high []
  | cons {low high line : Nat} {lines : List Nat} : low ≤ line → Climbs line high lines →
      Climbs low high (line :: lines)

namespace Climbs

variable {low middle high line : Nat} {lines more : List Nat}

theorem le (h : Climbs low high lines) : low ≤ high := by
  induction h with
  | nil le => exact le
  | cons le _ ih => exact Nat.le_trans le ih

theorem mono_left {low' : Nat} (le : low' ≤ low) (h : Climbs low high lines) :
    Climbs low' high lines := by
  cases h with
  | nil le' => exact .nil (Nat.le_trans le le')
  | cons le' h => exact .cons (Nat.le_trans le le') h

theorem append (h : Climbs low middle lines) (h' : Climbs middle high more) :
    Climbs low high (lines ++ more) := by
  induction h with
  | nil le => exact h'.mono_left le
  | cons le _ ih => exact .cons le (ih h')

theorem mono_right {high' : Nat} (le : high ≤ high') (h : Climbs low high lines) :
    Climbs low high' lines := by
  simpa using h.append (.nil le)

theorem singleton (below : low ≤ line) (above : line ≤ high) : Climbs low high [line] :=
  .cons below (.nil above)

/-- Lines that are all the same climb from that line to itself. -/
theorem of_forall_eq (h : ∀ n ∈ lines, n = line) : Climbs line line lines := by
  induction lines with
  | nil => exact .nil (Nat.le_refl line)
  | cons first lines ih =>
      have same : first = line := h first (by simp)
      subst same
      exact .cons (Nat.le_refl _) (ih fun n mem => h n (by simp [mem]))

/-- Lines that climb through a line climb up to it and from it on. -/
theorem split (h : Climbs low high (lines ++ line :: more)) :
    Climbs low line lines ∧ Climbs line high (line :: more) := by
  induction lines generalizing low with
  | nil =>
      cases h with
      | cons le h => exact ⟨.nil le, .cons (Nat.le_refl _) h⟩
  | cons first lines ih =>
      cases h with
      | cons le h => exact ⟨.cons le (ih h).1, (ih h).2⟩

theorem mem (h : Climbs low high lines) (mem : line ∈ lines) : low ≤ line ∧ line ≤ high := by
  obtain ⟨before, behind, rfl⟩ := List.append_of_mem mem
  exact ⟨h.split.1.le, h.split.2.le⟩

theorem pairwise (h : Climbs low high lines) : lines.Pairwise (· ≤ ·) := by
  induction h with
  | nil => exact .nil
  | cons _ h ih => exact .cons (fun _ mem => (h.mem mem).1) ih

end Climbs

/-! ## Segments -/

/-- Texts and whole tags with the end behind them. -/
inductive Segments : List Token → Prop
  | eof (line : Nat) : Segments [⟨.eof, line⟩]
  | text (value : String) (line : Nat) {rest : List Token} : Segments rest →
      Segments (⟨.text value, line⟩ :: rest)
  | tag (form : TagForm) (opened closed : Nat) {inner rest : List Token} :
      (∀ token ∈ inner, token.kind.IsInner) → Segments rest →
      Segments (⟨.opening form, opened⟩ :: inner ++ ⟨.closing form, closed⟩ :: rest)

/-- The end is the last of the tokens and none of the others. -/
theorem Segments.exists_eq_append_eof {tokens : List Token} (h : Segments tokens) :
    ∃ init line, tokens = init ++ [⟨.eof, line⟩] ∧ ∀ token ∈ init, token.kind ≠ .eof := by
  induction h with
  | eof line => exact ⟨[], line, rfl, by simp⟩
  | text value line _ ih =>
      obtain ⟨init, last, rfl, noEnd⟩ := ih
      refine ⟨⟨.text value, line⟩ :: init, last, rfl, ?_⟩
      simpa using noEnd
  | @tag form opened closed inner rest inside _ ih =>
      obtain ⟨init, last, rfl, noEnd⟩ := ih
      refine ⟨⟨.opening form, opened⟩ :: inner ++ ⟨.closing form, closed⟩ :: init, last,
        by simp, ?_⟩
      intro token mem
      simp only [List.cons_append, List.mem_cons, List.mem_append] at mem
      rcases mem with rfl | mem | rfl | mem
      · simp
      · intro eof
        simpa [eof, Token.Kind.IsInner] using inside token mem
      · simp
      · exact noEnd token mem

/-- A function of token lists that passes what stands inside of tags and their closers does not see
the rest of a tag. -/
theorem scan_closing {α : Type} {scan : List Token → α}
    (passes : ∀ token rest, token.kind.IsInner ∨ (∃ form, token.kind = .closing form) →
      scan (token :: rest) = scan rest) {row : List Token}
    (inner : ∀ token ∈ row, token.kind.IsInner) (form : TagForm) (line : Nat)
    (rest : List Token) : scan (row ++ ⟨.closing form, line⟩ :: rest) = scan rest := by
  induction row with
  | nil => exact passes _ _ (.inr ⟨form, rfl⟩)
  | cons token row ih =>
      have others := ih fun token mem => inner token (by simp [mem])
      exact (passes token _ (.inl (inner token (by simp)))).trans others

/-! ## The tokens of a source -/

namespace Lexeme

theorem Number.kind_isInner (spelling : List Char) : (Number.kind spelling).IsInner := by
  unfold Number.kind
  split <;> exact trivial

/-- A lexeme is a name, a literal or a symbol. -/
theorem kind_isInner_of_read {cs rest : List Char} {lexeme : Lexeme}
    (h : read cs = .ok (lexeme, rest)) : lexeme.kind.IsInner := by
  cases scanned_of_read h with
  | number => exact Number.kind_isInner _
  | literal | name | operator | mark => exact trivial

/-- What holds of every lexeme that can be read holds of all lexemes of a text, and beside them
there are only blanks. -/
theorem forall_of_readAll {P : Lexeme → Prop}
    (each : ∀ cs lexeme rest, read cs = .ok (lexeme, rest) → P lexeme) {cs trail : List Char}
    {row : List (List Char × Lexeme)} (h : readAll cs = .ok (row, trail)) :
    (∀ entry ∈ row, (∀ c ∈ entry.1, Text.isBlank c = true) ∧ P entry.2) ∧
      ∀ c ∈ trail, Text.isBlank c = true := by
  have blanks : ∀ cs : List Char, ∀ c ∈ cs.takeWhile Text.isBlank, Text.isBlank c = true :=
    fun _ => List.all_eq_true.mp List.all_takeWhile
  fun_induction readAll cs generalizing row with
  | case1 cs =>
      simp only [Except.ok.injEq, Prod.mk.injEq] at h
      obtain ⟨rfl, rfl⟩ := h
      exact ⟨by simp, blanks cs⟩
  | case2 => cases h
  | case3 => cases h
  | case4 cs lead body _ lexeme rest first more trail' others =>
      rename_i ih
      simp only [Except.ok.injEq, Prod.mk.injEq] at h
      obtain ⟨rfl, rfl⟩ := h
      obtain ⟨entries, after⟩ := ih others
      refine ⟨?_, after⟩
      intro entry mem
      rcases List.mem_cons.mp mem with rfl | mem
      · exact ⟨blanks cs, each _ _ _ first⟩
      · exact entries entry mem

theorem forall_kind_of_readAll {P : Token.Kind → Prop}
    (each : ∀ cs lexeme rest, read cs = .ok (lexeme, rest) → P lexeme.kind) {cs trail : List Char}
    {row : List (List Char × Lexeme)} (h : readAll cs = .ok (row, trail)) :
    ∀ entry ∈ row, P entry.2.kind :=
  fun entry mem => ((forall_of_readAll each h).1 entry mem).2

theorem kind_isInner_of_readAll {cs trail : List Char} {row : List (List Char × Lexeme)}
    (h : readAll cs = .ok (row, trail)) : ∀ entry ∈ row, entry.2.kind.IsInner :=
  forall_kind_of_readAll (fun _ _ _ => kind_isInner_of_read) h

theorem forall_kind_of_mem_tokens {P : Token.Kind → Prop} {row : List (List Char × Lexeme)}
    (h : ∀ entry ∈ row, P entry.2.kind) (line : Nat) :
    ∀ token ∈ tokens line row, P token.kind := by
  induction row generalizing line with
  | nil => simp [tokens]
  | cons entry row ih =>
      intro token mem
      rcases List.mem_cons.mp mem with rfl | mem
      · exact h entry (by simp)
      · exact ih (fun entry mem => h entry (by simp [mem])) _ token mem

/-- Lexemes stand on the lines of the text that they make up. -/
theorem climbs_tokens (line : Nat) (row : List (List Char × Lexeme)) :
    Climbs line (line + Text.lineFeeds (spellAll row)) ((tokens line row).map Token.line) := by
  induction row generalizing line with
  | nil => exact .nil (Nat.le_add_right _ _)
  | cons entry row ih =>
      obtain ⟨lead, lexeme⟩ := entry
      have rest := ih (line + Text.lineFeeds lead + Text.lineFeeds lexeme.spelling)
      -- the line feeds of the whole are those of the blanks, of the lexeme and of the rest
      have total : Text.lineFeeds (spellAll ((lead, lexeme) :: row)) =
          Text.lineFeeds lead + Text.lineFeeds lexeme.spelling + Text.lineFeeds (spellAll row) := by
        simp [spellAll, Text.lineFeeds_append, Nat.add_assoc]
      refine .cons (Nat.le_add_right _ _) ((rest.mono_left (Nat.le_add_right _ _)).mono_right ?_)
      omega

end Lexeme

namespace Tag

theorem lineFeeds_interior_le (tag : Tag) :
    Text.lineFeeds tag.interior ≤ Text.lineFeeds tag.spelling := by
  simp only [spelling, Text.lineFeeds_append]
  omega

/-- The tokens of a tag: none, or its delimiters with the lexemes of its inside between them. -/
theorem tokens_eq_ok {line : Nat} {tag : Tag} {tokens : List Token}
    (h : tag.tokens line = .ok tokens) :
    tokens = [] ∨ ∃ form row trail closed, Lexeme.readAll tag.interior = .ok (row, trail) ∧
      tokens = ⟨.opening form, line⟩ :: Lexeme.tokens line row ++ [⟨.closing form, closed⟩] := by
  unfold Tag.tokens at h
  split at h
  · cases h; exact .inl rfl
  · next form _ =>
    split at h
    · cases h
    · next row trail read =>
      cases h
      exact .inr ⟨form, row, trail, _, read, rfl⟩

/-- What is reported about a tag is a fault in its interior. -/
theorem exists_fault {line : Nat} {tag : Tag} {report : Report}
    (h : tag.tokens line = .error report) :
    ∃ fault : Lexeme.Fault, report = fault.report line tag.interior := by
  unfold Tag.tokens at h
  split at h
  · cases h
  · split at h
    · next fault _ =>
      cases h
      exact ⟨fault, rfl⟩
    · cases h

/-- What holds of delimiters and of every lexeme that can be read holds of all tokens of a tag. -/
theorem forall_kind_of_mem_tokens {P : Token.Kind → Prop}
    (delimiters : ∀ form, P (.opening form) ∧ P (.closing form))
    (each : ∀ cs lexeme rest, Lexeme.read cs = .ok (lexeme, rest) → P lexeme.kind) {line : Nat}
    {tag : Tag} {tokens : List Token} (h : tag.tokens line = .ok tokens) :
    ∀ token ∈ tokens, P token.kind := by
  rcases tokens_eq_ok h with rfl | ⟨form, row, trail, closed, read, rfl⟩
  · exact List.forall_mem_nil _
  · have inner := Lexeme.forall_kind_of_mem_tokens (Lexeme.forall_kind_of_readAll each read) line
    obtain ⟨opener, closer⟩ := delimiters form
    exact List.forall_mem_append.mpr
      ⟨List.forall_mem_cons.mpr ⟨opener, inner⟩, List.forall_mem_singleton.mpr closer⟩

/-- The tokens of a tag stand on the lines of the tag. -/
theorem climbs_tokens {line : Nat} {tag : Tag} {tokens : List Token}
    (h : tag.tokens line = .ok tokens) :
    Climbs line (line + Text.lineFeeds tag.spelling) (tokens.map Token.line) := by
  unfold Tag.tokens at h
  split at h
  · cases h; exact .nil (Nat.le_add_right _ _)
  · split at h
    · cases h
    · next row trail read =>
      cases h
      -- the lexemes lie within the inside of the tag, and that within the tag
      have whole := congrArg Text.lineFeeds (Lexeme.readAll_append read)
      rw [Text.lineFeeds_append] at whole
      have inner := (Lexeme.climbs_tokens line row).mono_right
        (Nat.add_le_add_left (Nat.le.intro whole) line)
      have closer := Nat.add_le_add_left tag.lineFeeds_interior_le line
      simp only [List.cons_append, List.map_cons, List.map_append, List.map_nil]
      exact .cons (Nat.le_refl line) (inner.append (.singleton (Nat.le_refl _) closer))

end Tag

namespace Cut

variable {line : Nat} {trimming : Trimming} {tokens : List Token}

/-- An empty text gives nothing but the end. -/
theorem tokens_text_nil (line : Nat) (trimming : Trimming) :
    (text []).tokens line trimming = .ok [⟨.eof, line⟩] := by
  cases trimming <;> rfl

/-- A source that begins with a text and a tag has tokens if its tag and what follows have. -/
theorem tokens_tag_eq_ok_iff {t : List Char} {found : Tag} {after : Cut} :
    (tag t found after).tokens line trimming = .ok tokens ↔
      ∃ inside more, found.tokens (line + Text.lineFeeds t) = .ok inside ∧
        after.tokens (line + Text.lineFeeds t + Text.lineFeeds found.spelling)
          (.behind found) = .ok more ∧
        tokens = textToken (line + Text.lineFeeds (trimming.split t).1)
          (if found.openDash then Text.trimEnd (trimming.split t).2 else (trimming.split t).2) ++
            inside ++ more := by
  simp only [Cut.tokens, bind, Except.bind]
  split
  · next failed => simp [failed]
  · next inside first =>
    split
    · next failed => simp [failed]
    · next more second =>
      constructor
      · intro h
        cases h
        exact ⟨inside, more, first, second, rfl⟩
      · rintro ⟨_, _, here, later, rfl⟩
        cases first.symm.trans here
        cases second.symm.trans later
        rfl

/-- It has none if its tag or what follows has none; the tag is reported first. -/
theorem tokens_tag_eq_error_iff {t : List Char} {found : Tag} {after : Cut} {report : Report} :
    (tag t found after).tokens line trimming = .error report ↔
      found.tokens (line + Text.lineFeeds t) = .error report ∨
        ∃ inside, found.tokens (line + Text.lineFeeds t) = .ok inside ∧
          after.tokens (line + Text.lineFeeds t + Text.lineFeeds found.spelling)
            (.behind found) = .error report := by
  simp only [Cut.tokens, bind, Except.bind]
  cases first : found.tokens (line + Text.lineFeeds t) with
  | error other => simp
  | ok inside =>
      cases second : after.tokens (line + Text.lineFeeds t + Text.lineFeeds found.spelling)
        (.behind found) <;> simp [pure, Except.pure]

theorem segments_textToken (line : Nat) (cs : List Char) {rest : List Token} (h : Segments rest) :
    Segments (textToken line cs ++ rest) := by
  unfold textToken
  split
  · exact h
  · exact .text _ _ h

/-- The tokens of a source are segments. -/
theorem segments {source : Cut} (h : source.tokens line trimming = .ok tokens) :
    Segments tokens := by
  induction source generalizing line trimming tokens with
  | text t =>
      cases h
      exact segments_textToken _ _ (.eof _)
  | unclosed => cases h
  | tag t found after ih =>
      obtain ⟨inside, more, first, second, rfl⟩ := tokens_tag_eq_ok_iff.mp h
      rw [List.append_assoc]
      refine segments_textToken _ _ ?_
      rcases Tag.tokens_eq_ok first with rfl | ⟨form, row, _, closed, read, rfl⟩
      · exact ih second
      · have inner := Lexeme.kind_isInner_of_readAll read
        simpa using Segments.tag form _ closed
          (Lexeme.forall_kind_of_mem_tokens inner _) (ih second)

theorem lineFeeds_split_le (trimming : Trimming) (cs : List Char) :
    Text.lineFeeds (trimming.split cs).1 ≤ Text.lineFeeds cs := by
  have whole := congrArg Text.lineFeeds (trimming.split_append cs)
  rw [Text.lineFeeds_append] at whole
  omega

/-- The token of a text stands on a line of the text. -/
theorem climbs_textToken (line : Nat) (t : List Char) (kept : List Char) :
    Climbs line (line + Text.lineFeeds t)
      ((textToken (line + Text.lineFeeds (trimming.split t).1) kept).map Token.line) := by
  have le := Nat.add_le_add_left (lineFeeds_split_le trimming t) line
  unfold textToken
  split
  · exact .nil (Nat.le_add_right _ _)
  · exact .singleton (Nat.le_add_right _ _) le

/-- The tokens of a source stand on its lines, in the order of the source. -/
theorem climbs {source : Cut} (h : source.tokens line trimming = .ok tokens) :
    Climbs line (line + Text.lineFeeds source.spelling) (tokens.map Token.line) := by
  induction source generalizing line trimming tokens with
  | text t =>
      cases h
      rw [List.map_append]
      exact (climbs_textToken line t _).append (.singleton (Nat.le_refl _) (Nat.le_refl _))
  | unclosed => cases h
  | tag t found after ih =>
      obtain ⟨inside, more, first, second, rfl⟩ := tokens_tag_eq_ok_iff.mp h
      simp only [spelling, Text.lineFeeds_append, List.map_append, ← Nat.add_assoc]
      exact ((climbs_textToken line t _).append (Tag.climbs_tokens first)).append (ih second)

end Cut

/-- Tokenizing gives texts and tags, on lines that climb from the first one. -/
theorem tokenize_shape {source : String} {tokens : List Token} (h : tokenize source = .ok tokens) :
    Segments tokens ∧ ∃ last, Climbs 1 last (tokens.map Token.line) :=
  ⟨Cut.segments h, _, Cut.climbs h⟩

end SheetMarkup
