import SheetMarkup.Proofs.Source.Segmentation

/-!
# Sources behind sources

A source whose tags are all closed is cut in the same way with more text behind it: its tags stay
where they are, and only its last text can go on (`Segmentation.cut_append`). So its tokens up to
the end stay as well, when a tag follows (`Cut.tokens_append`). Text in front that holds no opener
becomes part of the first text (`cut_prepend`), and a source that begins on a later line has the
same tokens on later lines (`Cut.tokens_shift`).
-/

namespace SheetMarkup

open Token (Kind kinds)

/-! ## More text behind -/

/-- What ends within the first of two texts is found in it alone. -/
theorem exists_eq_append_of_short {cs more before others : List Char}
    (h : cs ++ more = before ++ others) (short : before.length ≤ cs.length) :
    ∃ rest, cs = before ++ rest := by
  have begins : before <+: cs := by
    apply List.prefix_of_prefix_length_le _ (List.prefix_append cs more) short
    exact ⟨others, h.symm⟩
  obtain ⟨rest, eq⟩ := begins
  exact ⟨rest, eq.symm⟩

theorem FirstSplit.append {Admitted : List Char → Prop} {mark cs before after : List Char}
    (h : FirstSplit Admitted mark cs before after) (more : List Char) :
    FirstSplit Admitted mark (cs ++ more) before (after ++ more) := by
  refine ⟨by simp [h.split], h.admitted, ?_⟩
  intro earlier others eq admitted
  apply Nat.le_of_not_lt
  intro less
  -- a place further to the front ends where the first one does, or before
  have total := congrArg List.length h.split
  simp only [List.length_append] at total
  obtain ⟨rest, found⟩ := exists_eq_append_of_short eq (by simp only [List.length_append]; omega)
  exact Nat.not_le.mpr less (h.first earlier rest found admitted)

theorem Opener.length_spelling (opener : Opener) : opener.spelling.length = 2 := by
  obtain ⟨c, eq⟩ := opener.exists_spelling_eq
  rw [eq]
  rfl

theorem FirstOpener.append {cs before inside : List Char} {opener : Opener}
    (h : FirstOpener cs before opener inside) (more : List Char) :
    FirstOpener (cs ++ more) before opener (inside ++ more) := by
  refine ⟨by simp [h.split], ?_⟩
  intro earlier other others eq
  apply Nat.le_of_not_lt
  intro less
  have total := congrArg List.length h.split
  simp only [List.length_append, Opener.length_spelling] at total
  obtain ⟨rest, found⟩ := exists_eq_append_of_short eq
    (by simp only [List.length_append, Opener.length_spelling]; omega)
  exact Nat.not_le.mpr less (h.first earlier other rest found)

theorem Tag.Spans.append {tag : Tag} {inside rest : List Char} (h : tag.Spans inside rest)
    (more : List Char) : tag.Spans (inside ++ more) (rest ++ more) := by
  obtain ⟨body, opened, noOpen, closer, noClose⟩ := h
  have ne : body ≠ [] := by
    rintro rfl
    have nil := closer.split
    simp [tag.opener.closer_ne_nil] at nil
  refine .intro (body ++ more) (by simp [opened]) ?_ (closer.append more) noClose
  intro absent
  rw [List.head?_append, List.head?_eq_some_head ne, Option.some_or,
    ← List.head?_eq_some_head ne]
  exact noOpen absent

namespace Cut

/-- A cut source that goes on with more text. -/
def append : Cut → List Char → Cut
  | text t, more => cut (t ++ more)
  | unclosed t opener rest, more => .unclosed t opener (rest ++ more)
  | tag t found after, more => .tag t found (after.append more)

/-- A cut source with more text in front of its first one. -/
def prepend (lead : List Char) : Cut → Cut
  | text t => .text (lead ++ t)
  | unclosed t opener rest => .unclosed (lead ++ t) opener rest
  | tag t found after => .tag (lead ++ t) found after

/-- The text behind the last tag. -/
def last : Cut → List Char
  | text t => t
  | unclosed t opener rest => t ++ opener.spelling ++ rest
  | tag _ _ after => after.last

end Cut

/-- The tags of a source stay where they are if more text follows. -/
theorem Segmentation.cut_append {cs : List Char} {parts : Cut} (h : Segmentation cs parts)
    (more : List Char) : cut (cs ++ more) = parts.append more := by
  induction h with
  | text => rfl
  | @tag cs t inside rest tag after begins spans _ ih =>
      have find := Opener.find?_eq_some_iff.mpr (begins.append more)
      have read := Tag.read?_eq_some_iff.mpr ⟨rfl, spans.append more⟩
      rw [cut_of_find?_eq_some find read, ih]
      rfl

/-- The last text of a source holds no opener, and it ends as the source does. -/
theorem Segmentation.plainText_last {cs : List Char} {parts : Cut} (h : Segmentation cs parts)
    (noBrace : cs.getLast? ≠ some '{') : PlainText parts.last := by
  induction h with
  | text noOpener => exact ⟨noOpener, noBrace⟩
  | @tag cs t inside rest tag after begins spans _ ih =>
      apply ih
      obtain ⟨body, rfl, -, closer, -⟩ := spans
      intro brace
      apply noBrace
      rw [begins.split, closer.split]
      simp [List.getLast?_append, brace]

/-! ## More text in front -/

theorem Opener.find?_prepend {lead : List Char} (h : '{' ∉ lead) (cs : List Char) :
    Opener.find? (lead ++ cs) =
      (Opener.find? cs).map fun (text, found) => (lead ++ text, found) := by
  induction lead with
  | nil => simp
  | cons c lead ih =>
      have noBrace : c ≠ '{' := by
        rintro rfl
        simp at h
      have noOpener : Opener.split? (c :: (lead ++ cs)) = none := by
        cases found : Opener.split? (c :: (lead ++ cs)) with
        | none => rfl
        | some split =>
            obtain ⟨opener, rest⟩ := split
            obtain ⟨d, spelled⟩ := opener.exists_spelling_eq
            have begins := Opener.split?_eq_some_iff.mp found
            rw [spelled] at begins
            exact absurd (List.cons.inj begins).1 noBrace
      rw [List.cons_append, Opener.find?_of_split?_eq_none noOpener,
        ih fun mem => h (by simp [mem]), Option.map_map]
      rfl

/-- Text without braces becomes part of the first text behind it. -/
theorem cut_prepend {lead : List Char} (h : '{' ∉ lead) (cs : List Char) :
    cut (lead ++ cs) = (cut cs).prepend lead := by
  have find := Opener.find?_prepend h cs
  cases found : Opener.find? cs with
  | none =>
      rw [found] at find
      rw [cut_of_find?_eq_none find, cut_of_find?_eq_none found]
      rfl
  | some split =>
      obtain ⟨t, opener, inside⟩ := split
      rw [found] at find
      cases read : Tag.read? opener inside with
      | some split =>
          obtain ⟨tag, rest⟩ := split
          rw [cut_of_find?_eq_some find read, cut_of_find?_eq_some found read]
          rfl
      | none =>
          rw [cut_of_read?_eq_none find read, cut_of_read?_eq_none found read]
          rfl

/-! ## Tokens -/

/-- A token some lines further down. -/
def Token.shift (n : Nat) (token : Token) : Token := { token with line := token.line + n }

@[simp] theorem Token.kinds_map_shift (n : Nat) (tokens : List Token) :
    kinds (tokens.map (shift n)) = kinds tokens := by
  simp [kinds, Function.comp_def, shift]

theorem Lexeme.tokens_shift (n line : Nat) (row : List (List Char × Lexeme)) :
    tokens (line + n) row = (tokens line row).map (Token.shift n) := by
  induction row generalizing line with
  | nil => rfl
  | cons entry row ih =>
      have start : line + n + Text.lineFeeds entry.1 = line + Text.lineFeeds entry.1 + n := by omega
      have next : line + Text.lineFeeds entry.1 + n + Text.lineFeeds entry.2.spelling =
          line + Text.lineFeeds entry.1 + Text.lineFeeds entry.2.spelling + n := by omega
      simp only [tokens, start, next, ih, List.map_cons]
      rfl

/-- A report some lines further down. -/
def Report.shift (n : Nat) (report : Report) : Report :=
  { report with line := report.line.map (· + n) }

/-- What is read some lines further down, tokens or a report. -/
def shiftLines (n : Nat) : Except Report (List Token) → Except Report (List Token)
  | .ok tokens => .ok (tokens.map (Token.shift n))
  | .error report => .error (report.shift n)

theorem Lexeme.Fault.report_add (fault : Lexeme.Fault) (line n : Nat) (interior : List Char) :
    fault.report (line + n) interior = (fault.report line interior).shift n := by
  have moved : line + n + Text.lineFeeds (interior.take fault.offset) =
      line + Text.lineFeeds (interior.take fault.offset) + n := by omega
  simp only [report, moved, Located.onLine, Report.shift, Option.map_some]

theorem Tag.tokens_add (tag : Tag) (line n : Nat) :
    tag.tokens (line + n) = shiftLines n (tag.tokens line) := by
  unfold Tag.tokens
  split
  · rfl
  · split
    · next fault _ => simp only [shiftLines, fault.report_add]
    · next row trail _ =>
      have closed : line + n + Text.lineFeeds tag.interior =
          line + Text.lineFeeds tag.interior + n := by omega
      simp only [shiftLines, Lexeme.tokens_shift, closed, List.cons_append, List.map_cons,
        List.map_append]
      rfl

theorem textToken_shift (n line : Nat) (cs : List Char) :
    textToken (line + n) cs = (textToken line cs).map (Token.shift n) := by
  unfold textToken
  split <;> rfl

namespace Cut

variable {line : Nat} {trimming : Trimming} {tokens : List Token}

/-- A source that begins some lines further down is read as many lines further down. -/
theorem tokens_add (parts : Cut) (line n : Nat) (trimming : Trimming) :
    parts.tokens (line + n) trimming = shiftLines n (parts.tokens line trimming) := by
  have move : ∀ m, line + n + m = line + m + n := by omega
  induction parts generalizing line trimming with
  | text t =>
      simp only [Cut.tokens, shiftLines, move, textToken_shift, List.map_append]
      rfl
  | unclosed t opener rest => simp only [Cut.tokens, move]; rfl
  | tag t found after ih =>
      have total : line + Text.lineFeeds t + n + Text.lineFeeds found.spelling =
          line + Text.lineFeeds t + Text.lineFeeds found.spelling + n := by omega
      have here := found.tokens_add (line + Text.lineFeeds t) n
      have later := ih (line + Text.lineFeeds t + Text.lineFeeds found.spelling) (.behind found)
        (by omega)
      simp only [Cut.tokens, move, total, here, later]
      cases found.tokens (line + Text.lineFeeds t) with
      | error report => rfl
      | ok inside =>
          cases after.tokens (line + Text.lineFeeds t + Text.lineFeeds found.spelling)
              (.behind found) with
          | error report => rfl
          | ok more =>
              simp only [shiftLines, textToken_shift, bind, Except.bind, pure, Except.pure,
                List.map_append]

/-- The tokens of a source that begins some lines further down stand as many lines further down. -/
theorem tokens_shift {parts : Cut} (h : parts.tokens line trimming = .ok tokens) (n : Nat) :
    parts.tokens (line + n) trimming = .ok (tokens.map (Token.shift n)) := by
  rw [tokens_add, h, shiftLines]

/-- The text before the first tag. -/
def first : Cut → List Char
  | text t => t
  | unclosed t _ _ => t
  | tag t _ _ => t

/-- What is taken off in front of a source only moves the rest of it to later lines. -/
theorem tokens_prepend {lost : List Char} {parts : Cut}
    (split : trimming.split (lost ++ parts.first) = (lost, parts.first)) (line : Nat) :
    (parts.prepend lost).tokens line trimming =
      parts.tokens (line + Text.lineFeeds lost) .nothing := by
  have whole : ∀ t : List Char, Trimming.nothing.split t = ([], t) := by
    intro t
    cases t <;> rfl
  have none : ∀ m, m + Text.lineFeeds [] = m := fun _ => rfl
  cases parts with
  | text t =>
      rw [first] at split
      simp only [prepend, Cut.tokens, whole, split, Text.lineFeeds_append, none, Nat.add_assoc]
  | unclosed t opener rest =>
      simp only [prepend, Cut.tokens, Text.lineFeeds_append, Nat.add_assoc]
  | tag t found after =>
      rw [first] at split
      simp only [prepend, Cut.tokens, whole, split, Text.lineFeeds_append, none, Nat.add_assoc]

/-- Behind a block tag, a line feed in front of a source only moves it to the next line. -/
theorem tokens_lineFeed (parts : Cut) (line : Nat) :
    (parts.prepend ['\n']).tokens line .lineEnd = parts.tokens (line + 1) .nothing :=
  tokens_prepend rfl line

/-- The tokens of a source stay when a tag and nothing else follows it: the tokens of the tag come
behind them and before the end. -/
theorem tokens_append {parts : Cut} {init inner : List Token} {more : List Char} {found : Tag}
    {finish : Nat} (h : parts.tokens line trimming = .ok (init ++ [⟨.eof, finish⟩]))
    (follows : cut (parts.last ++ more) = .tag parts.last found (.text []))
    (noDash : found.openDash = false) (inside : found.tokens finish = .ok inner) :
    (parts.append more).tokens line trimming =
      .ok (init ++ inner ++ [⟨.eof, finish + Text.lineFeeds found.spelling⟩]) := by
  induction parts generalizing line trimming init with
  | text t =>
      simp only [Cut.tokens, Except.ok.injEq] at h
      obtain ⟨rfl, ends⟩ := List.append_inj' h rfl
      simp only [List.cons.injEq, Token.mk.injEq, true_and, and_true] at ends
      subst ends
      have split : cut (t ++ more) = .tag t found (.text []) := follows
      rw [append, split]
      exact tokens_tag_eq_ok_iff.mpr ⟨inner, _, inside, tokens_text_nil _ _, by simp [noDash]⟩
  | unclosed => cases h
  | tag t first after ih =>
      obtain ⟨tokens, others, here, later, eq⟩ := tokens_tag_eq_ok_iff.mp h
      -- the end stands among the tokens behind the tag
      obtain ⟨init', last, rfl, -⟩ := (Cut.segments later).exists_eq_append_eof
      rw [← List.append_assoc] at eq
      obtain ⟨rfl, ends⟩ := List.append_inj' eq rfl
      simp only [List.cons.injEq, Token.mk.injEq, true_and, and_true] at ends
      subst ends
      exact tokens_tag_eq_ok_iff.mpr ⟨tokens, _, here, ih later follows, by simp⟩

end Cut

end SheetMarkup
