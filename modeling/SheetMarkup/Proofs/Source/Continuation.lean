import SheetMarkup.Proofs.Located
import SheetMarkup.Proofs.Source.Appending

/-!
# Sources behind a closing tag

Where a source ends with a tag, what is written behind it is read by itself: it only loses what the
tag takes off its beginning, and stands on later lines (`tokenize_append`). The tags of the first
source stay where they are (`Segmentation.cut_append`), so its tokens do (`EndsWith.tokens_append`).
Of the second source the first text alone is trimmed, and what it loses is what the whole source
would (`tokens_cut`). On later lines both tokens and reports are the same but for their
lines (`Cut.tokens_add`).
-/

namespace SheetMarkup

/-! ## What a source loses at its beginning -/

namespace Trimming

variable {trimming : Trimming}

/-- No brace is lost, so no tag is. -/
theorem brace_notMem_split (cs : List Char) : '{' ∉ (trimming.split cs).1 := by
  cases trimming with
  | nothing => cases cs <;> simp [split]
  | blanks =>
      intro mem
      have blank := List.all_eq_true.mp List.all_takeWhile _ mem
      cases blank
  | lineEnd =>
      by_cases feed : ['\n'] <+: cs
      · obtain ⟨rest, rfl⟩ := feed
        simp [split]
      by_cases crlf : ['\r', '\n'] <+: cs
      · obtain ⟨rest, rfl⟩ := crlf
        simp [split]
      rw [split_lineEnd_eq_self feed crlf]
      exact List.not_mem_nil

/-- A beginning of what is kept is kept when it stands alone. -/
theorem split_of_prefix {cs t : List Char} (begins : t <+: (trimming.split cs).2) :
    trimming.split ((trimming.split cs).1 ++ t) = ((trimming.split cs).1, t) := by
  cases trimming with
  | nothing => cases cs <;> cases t <;> rfl
  | blanks =>
      have all : ∀ c ∈ cs.takeWhile Text.isBlank, Text.isBlank c = true :=
        List.all_eq_true.mp List.all_takeWhile
      -- what is kept begins with no blank, and neither does a beginning of it
      have stop : ∀ c ∈ t.head?, Text.isBlank c = false := by
        intro c head
        obtain ⟨rest, kept⟩ := begins
        have split : t ++ rest = cs.dropWhile Text.isBlank := kept
        have first := List.head?_dropWhile_not Text.isBlank cs
        rw [← split, List.head?_append, head] at first
        simpa using first
      obtain ⟨take, drop⟩ := takeWhile_append_stop all stop
      simp only [split, take, drop]
  | lineEnd =>
      by_cases feed : ['\n'] <+: cs
      · obtain ⟨rest, rfl⟩ := feed
        rfl
      by_cases crlf : ['\r', '\n'] <+: cs
      · obtain ⟨rest, rfl⟩ := crlf
        rfl
      -- nothing is lost, as a line end at the front of the text alone is one of the whole
      rw [split_lineEnd_eq_self feed crlf] at begins ⊢
      exact split_lineEnd_eq_self (fun h => feed (h.trans begins)) fun h => crlf (h.trans begins)

end Trimming

namespace Cut

theorem first_prefix_spelling (parts : Cut) : parts.first <+: parts.spelling := by
  cases parts <;> simp [first, spelling, List.append_assoc]

/-- A source is trimmed like its first text. -/
theorem tokens_cut (cs : List Char) (line : Nat) (trimming : Trimming) :
    (cut cs).tokens line trimming =
      (cut (trimming.split cs).2).tokens (line + Text.lineFeeds (trimming.split cs).1)
        .nothing := by
  have whole := trimming.split_append cs
  have begins := (cut (trimming.split cs).2).first_prefix_spelling
  rw [spelling_cut] at begins
  rw [← tokens_prepend (Trimming.split_of_prefix begins),
    ← cut_prepend (Trimming.brace_notMem_split cs), whole]

/-! ## What stands behind the last tag -/

/-- Whether a cut source ends with this tag. -/
inductive EndsWith (final : Tag) : Cut → Prop
  | here (t : List Char) : EndsWith final (.tag t final (.text []))
  | behind (t : List Char) (tag : Tag) {after : Cut} : EndsWith final after →
      EndsWith final (.tag t tag after)

variable {line : Nat} {trimming : Trimming}

/-- Behind a tag that can be read stand the tokens of what follows, or there is its report. -/
theorem tokens_tag_of_ok {t : List Char} {found : Tag} {inside : List Token}
    (h : found.tokens (line + Text.lineFeeds t) = .ok inside) (trimming : Trimming) :
    ∃ before, ∀ after : Cut, (tag t found after).tokens line trimming =
      (after.tokens (line + Text.lineFeeds t + Text.lineFeeds found.spelling)
        (.behind found)).map (before ++ ·) := by
  refine ⟨textToken (line + Text.lineFeeds (trimming.split t).1)
    (if found.openDash then Text.trimEnd (trimming.split t).2 else (trimming.split t).2) ++
      inside, ?_⟩
  intro after
  simp only [Cut.tokens, h, bind, Except.bind]
  cases after.tokens (line + Text.lineFeeds t + Text.lineFeeds found.spelling)
      (.behind found) <;> rfl

theorem tag_of_tokens_eq_ok {t : List Char} {found : Tag} {after : Cut} {tokens : List Token}
    (h : (tag t found after).tokens line trimming = .ok tokens) :
    ∃ inside, found.tokens (line + Text.lineFeeds t) = .ok inside :=
  let ⟨inside, _, first, _⟩ := tokens_tag_eq_ok_iff.mp h
  ⟨inside, first⟩

/-- Behind a source that ends with a tag, more text is read by itself: the tokens of the source up
to the end stay, and those of the text, or its report, follow. -/
theorem EndsWith.tokens_append {parts : Cut} {final : Tag} (ends : parts.EndsWith final)
    {tokens : List Token} (h : parts.tokens line trimming = .ok tokens) :
    ∃ init, tokens = init ++ [⟨.eof, line + Text.lineFeeds parts.spelling⟩] ∧
      ∀ more, (parts.append more).tokens line trimming =
        ((cut more).tokens (line + Text.lineFeeds parts.spelling) (.behind final)).map
          (init ++ ·) := by
  -- the induction is on the tags up to the last one
  induction ends generalizing line trimming tokens with
  | here t =>
      obtain ⟨inside, first⟩ := tag_of_tokens_eq_ok h
      obtain ⟨before, eq⟩ := tokens_tag_of_ok first trimming
      have total : line + Text.lineFeeds t + Text.lineFeeds final.spelling =
          line + Text.lineFeeds (Cut.tag t final (.text [])).spelling := by
        simp [spelling, Text.lineFeeds_append, Nat.add_assoc]
      rw [total] at eq
      rw [eq, tokens_text_nil] at h
      cases h
      exact ⟨before, rfl, fun more => eq (cut more)⟩
  | @behind t found after _ ih =>
      obtain ⟨inside, first⟩ := tag_of_tokens_eq_ok h
      obtain ⟨before, eq⟩ := tokens_tag_of_ok first trimming
      have total : line + Text.lineFeeds t + Text.lineFeeds found.spelling +
          Text.lineFeeds after.spelling =
            line + Text.lineFeeds (Cut.tag t found after).spelling := by
        simp [spelling, Text.lineFeeds_append, Nat.add_assoc]
      cases second : after.tokens (line + Text.lineFeeds t + Text.lineFeeds found.spelling)
          (.behind found) with
      | error report =>
          rw [eq, second] at h
          cases h
      | ok others =>
          rw [eq, second] at h
          cases h
          obtain ⟨init, rfl, behind⟩ := ih second
          rw [total] at behind
          refine ⟨before ++ init, by rw [total, List.append_assoc], fun more => ?_⟩
          rw [Cut.append, eq, behind more]
          cases (cut more).tokens _ _ <;> simp [Except.map]

theorem EndsWith.closed {parts : Cut} {final : Tag} (ends : parts.EndsWith final) :
    parts.Closed := by
  induction ends with
  | here => exact trivial
  | behind _ _ _ ih => exact ih

end Cut

/-- Let a source with tokens end with a tag. What is written behind it loses what it must behind the
tag. The whole has tokens if and only if what is kept has, and it has those of the first source up
to its end and those of the second, moved on by the lines of the first source and of what is lost.
The report about the second source is moved on in the same way. -/
theorem tokenize_append {a b : String} {tokens : List Token} {final : Tag}
    (accepted : tokenize a = .ok tokens) (ends : (cut a.toList).EndsWith final) :
    ∃ init finish lost kept, tokens = init ++ [⟨.eof, finish⟩] ∧ b.toList = lost ++ kept ∧
      KeptBehind (some final) b.toList kept ∧
      ((∃ all, tokenize (a ++ b) = .ok all) ↔
        ∃ more, tokenize (String.ofList kept) = .ok more) ∧
      (∀ more, tokenize (String.ofList kept) = .ok more →
        tokenize (a ++ b) = .ok (init ++ more.map (Token.shift
          (Text.lineFeeds a.toList + Text.lineFeeds lost)))) ∧
      ∀ report, tokenize (String.ofList kept) = .error report →
        ∃ line, report.line = some line ∧
          tokenize (a ++ b) = .error { report with
            line := some (line + (Text.lineFeeds a.toList + Text.lineFeeds lost)) } := by
  let lost := ((Trimming.behind final).split b.toList).1
  let kept := ((Trimming.behind final).split b.toList).2
  let down := Text.lineFeeds a.toList + Text.lineFeeds lost
  obtain ⟨init, eq, behind⟩ := ends.tokens_append accepted
  have parts := (segmentation_iff.mpr ⟨rfl, ends.closed⟩).cut_append b.toList
  -- what is kept begins behind the first source and what is lost
  have start : 1 + Text.lineFeeds a.toList + Text.lineFeeds lost = 1 + down := Nat.add_assoc ..
  have whole : tokenize (a ++ b) =
      (shiftLines down (tokenize (String.ofList kept))).map (init ++ ·) := by
    rw [tokenize, String.toList_append, parts, behind, spelling_cut, Cut.tokens_cut, start,
      Cut.tokens_add, tokenize, String.toList_ofList]
  refine ⟨init, _, lost, kept, eq, ((Trimming.behind final).split_append _).symm,
    Trimming.keptBehind_iff.mpr rfl, ?_, ?_, ?_⟩
  · rw [whole]
    cases tokenize (String.ofList kept) <;> simp [shiftLines, Except.map]
  · intro more read
    rw [whole, read]
    rfl
  · intro report failed
    obtain ⟨-, line, placed, -⟩ := Cut.on_of_tokens_eq_error failed
    refine ⟨line, placed, ?_⟩
    rw [whole, failed]
    simp [shiftLines, Except.map, Report.shift, placed, down]

/-- Behind a comment on the second line that takes blanks, a tag on the second line of what follows
is not closed. -/
theorem tokenize_append_unclosed :
    tokenize "x\n\x7b# y -#\x7d" = .ok [⟨.text "x\n", 1⟩, ⟨.eof, 2⟩] ∧
      (cut "x\n\x7b# y -#\x7d".toList).EndsWith ⟨.comment, false, " y ".toList, true⟩ ∧
      tokenize ("x\n\x7b# y -#\x7d" ++ " \n\n\x7b\x7b z") =
        .error ⟨.unclosed (.tag .output), none, some 4⟩ := by
  have accepted : tokenize "x\n\x7b# y -#\x7d" = .ok [⟨.text "x\n", 1⟩, ⟨.eof, 2⟩] := by cbv
  have parts : cut "x\n\x7b# y -#\x7d".toList =
      .tag "x\n".toList ⟨.comment, false, " y ".toList, true⟩ (.text []) := by cbv
  have ends : (cut "x\n\x7b# y -#\x7d".toList).EndsWith ⟨.comment, false, " y ".toList, true⟩ := by
    rw [parts]
    exact .here _
  refine ⟨accepted, ends, ?_⟩
  obtain ⟨init, finish, lost, kept, -, split, keeps, -, -, failed⟩ :=
    tokenize_append (b := " \n\n\x7b\x7b z") accepted ends
  have kept_eq : "\x7b\x7b z".toList = kept := Trimming.keptBehind_iff.mp keeps
  subst kept_eq
  have lost_eq : " \n\n".toList = lost := List.append_cancel_right split
  subst lost_eq
  obtain ⟨line, placed, whole⟩ := failed ⟨.unclosed (.tag .output), none, some 1⟩ (by cbv)
  cases placed
  exact whole

end SheetMarkup
