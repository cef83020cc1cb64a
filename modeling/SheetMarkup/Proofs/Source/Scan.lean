import SheetMarkup.Proofs.Source.Continuation
import SheetMarkup.Proofs.Source.Offsets
import SheetMarkup.Proofs.Source.Sites

/-!
# The scan by offsets

A source can be scanned by offsets into its encoding. In each round the next opener is searched for,
from one brace to the next, and then the closer of its tag; the bytes and parts between the offsets
found are read, and the scan goes on behind what the text behind the tag loses at its beginning. A
part whose ends are out of order, out of range or inside of a character is missing (`slice?`), and
then there is no result at all.

There always is one. What is looked for by offsets is what the cut finds (`look?_eq`, `inside?_eq`,
`next?_eq`), so the offsets of a round are places (`Round.safe_of`), and a run leaves the tokens of
the source, tag behind tag (`exists_run?_eq`, `exists_safe_rounds`).
-/

namespace SheetMarkup

open Text

namespace Scan

/-! ## Searches -/

/-- The opener whose second character is the byte that stands there, if one stands there. -/
def openerOf? (byte : Option UInt8) : Option Opener :=
  if byte = some '{'.toUInt8 then some (.tag .output)
  else if byte = some '%'.toUInt8 then some (.tag .block)
  else if byte = some '#'.toUInt8 then some .comment
  else none

/-- Looks for an opener from an offset on, from one brace to the next. -/
def opener? (source : String) : Nat → Nat → Option (Option (Nat × Opener))
  | 0, _ => none
  | fuel + 1, offset => do
    let behind ← slice? source offset source.utf8ByteSize
    match indexOf? ['{'] behind.toList with
    | none => return none
    | some index =>
      let start := offset + index
      -- one byte is enough: none of another character is that of an opener
      match openerOf? (byte? source (start + 1)) with
      | some opener => return some (start, opener)
      | none => opener? source fuel (start + 1)

/-- Looks for a closer at each of the characters of a text in turn. -/
def closerIn? (text : String) (closer : List Char) :
    Nesting → List (Nat × Char) → Option (Option Nat)
  | _, [] => some none
  | nesting, (index, c) :: more =>
    if nesting = .bare 0 then do
      let behind ← slice? text index text.utf8ByteSize
      if closer.isPrefixOf behind.toList then return some index
      else closerIn? text closer (nesting.next c) more
    else closerIn? text closer (nesting.next c) more

/-- Looks for the closer of a tag from an offset on. -/
def closer? (source : String) (opener : Opener) (offset : Nat) : Option (Option Nat) := do
  let behind ← slice? source offset source.utf8ByteSize
  match opener with
  | .comment => return (indexOf? opener.closer behind.toList).map (offset + ·)
  | .tag _ =>
    let found ← closerIn? behind opener.closer (.bare 0) (charIndices 0 behind.toList)
    return found.map (offset + ·)

theorem openerOf?_eq {source : String} {before rest : List Char}
    (h : source.toList = before ++ '{' :: rest) :
    openerOf? (byte? source (bytes before + 1)) = (Opener.split? ('{' :: rest)).map Prod.fst := by
  have split : source.toList = (before ++ ['{']) ++ rest := by simp [h]
  have place : bytes (before ++ ['{']) = bytes before + 1 := by
    rw [bytes_append]
    rfl
  -- the first byte of an ASCII character is the character
  have next (c : Char) (ascii : c.toNat < 128) :
      byte? source (bytes before + 1) = some c.toUInt8 ↔ rest.head? = some c := by
    rw [← place]
    exact byte?_eq_iff split ascii
  unfold openerOf?
  rw [if_congr (next '{' (by decide)) rfl rfl, if_congr (next '%' (by decide)) rfl rfl,
    if_congr (next '#' (by decide)) rfl rfl]
  cases rest with
  | nil => rfl
  | cons c rest =>
      simp only [List.head?_cons, Option.some.injEq]
      split
      · next eq => subst eq; rfl
      split
      · next eq => subst eq; rfl
      split
      · next eq => subst eq; rfl
      · unfold Opener.split?
        split <;> simp_all

/-- The first brace of a text, if it has one. -/
theorem splitAtMark?_brace (cs : List Char) :
    (splitAtMark? ['{'] cs = none ∧ '{' ∉ cs) ∨
      ∃ t rest, splitAtMark? ['{'] cs = some (t, rest) ∧ cs = t ++ '{' :: rest ∧ '{' ∉ t := by
  induction cs with
  | nil => exact .inl ⟨rfl, List.not_mem_nil⟩
  | cons c cs ih =>
      by_cases brace : c = '{'
      · subst brace
        exact .inr ⟨[], cs, rfl, rfl, List.not_mem_nil⟩
      · have elsewhere : splitAtMark? ['{'] (c :: cs) =
            Nesting.passed [c] (splitAtMark? ['{'] cs) := by
          rw [splitAtMark?, if_neg (by simp [Ne.symm brace])]
          rfl
        rcases ih with ⟨none, noBrace⟩ | ⟨t, rest, some, rfl, noBrace⟩
        · exact .inl ⟨by rw [elsewhere, none]; rfl, by simp [Ne.symm brace, noBrace]⟩
        · refine .inr ⟨c :: t, rest, by rw [elsewhere, some]; rfl, rfl, ?_⟩
          simp [Ne.symm brace, noBrace]

theorem opener?_eq {source : String} {before cs : List Char} (h : source.toList = before ++ cs)
    {fuel : Nat} (enough : cs.length < fuel) :
    opener? source fuel (bytes before) =
      some ((Opener.find? cs).map fun found => (bytes (before ++ found.1), found.2.1)) := by
  induction fuel generalizing before cs with
  | zero => exact absurd enough (Nat.not_lt_zero _)
  | succ fuel ih =>
      rw [opener?, slice?_rest h]
      simp only [Option.bind_eq_bind, Option.bind_some, String.toList_ofList, indexOf?_eq]
      rcases splitAtMark?_brace cs with ⟨none, noBrace⟩ | ⟨t, rest, some, rfl, noBrace⟩
      · have find := Opener.find?_prepend noBrace []
        rw [List.append_nil] at find
        rw [none, find]
        rfl
      · have here : source.toList = before ++ t ++ '{' :: rest := by rw [h, List.append_assoc]
        have find := Opener.find?_prepend noBrace ('{' :: rest)
        rw [some]
        simp only [Option.map_some, ← bytes_append, openerOf?_eq here]
        cases opens : Opener.split? ('{' :: rest) with
        | some found => simp [find, Opener.find?, opens]
        | none =>
            -- the search goes on behind the brace
            have split : source.toList = before ++ t ++ ['{'] ++ rest := by simp [here]
            have more := ih split (by simp at enough; omega)
            rw [show bytes (before ++ t ++ ['{']) = bytes (before ++ t) + 1 from bytes_append _ _]
              at more
            rw [Opener.find?, opens] at find
            simp only [Option.map_none, more, find]
            cases Opener.find? rest <;> simp

/-- A text is searched for its closer as `Nesting.split?` does it. -/
theorem closerIn?_eq {text : String} {before cs : List Char} (closer : List Char)
    (nesting : Nesting) (h : text.toList = before ++ cs) :
    closerIn? text closer nesting (charIndices (bytes before) cs) =
      some ((nesting.split? closer cs).map fun split => bytes (before ++ split.1)) := by
  -- along the characters not yet passed, with those passed standing before
  induction cs generalizing before nesting with
  | nil => rfl
  | cons c cs ih =>
      have split : text.toList = (before ++ [c]) ++ cs := by simp [h]
      have more := ih (nesting.next c) split
      rw [show bytes (before ++ [c]) = bytes before + c.utf8Size by simp] at more
      have behind : closerIn? text closer (nesting.next c)
          (charIndices (bytes before + c.utf8Size) cs) =
            some ((Nesting.passed [c] ((nesting.next c).split? closer cs)).map
              fun split => bytes (before ++ split.1)) := by
        rw [more, Nesting.passed, Option.map_map]
        simp [Function.comp_def]
      rw [charIndices, closerIn?, slice?_rest h]
      simp only [Option.bind_eq_bind, Option.bind_some, String.toList_ofList, behind]
      by_cases bare : nesting = .bare 0
      · by_cases closes : closer.isPrefixOf (c :: cs) = true
        · simp [Nesting.split?, bare, closes]
        · rw [Nesting.split?_cons_of fun both => closes both.2, if_neg closes, ite_self]
      · rw [Nesting.split?_cons_of fun both => bare both.1, if_neg bare]

theorem closer?_eq {source : String} {before cs : List Char} (opener : Opener)
    (h : source.toList = before ++ cs) :
    closer? source opener (bytes before) =
      some ((opener.splitCloser? cs).map fun split => bytes (before ++ split.1)) := by
  rw [closer?, slice?_rest h]
  cases opener with
  | comment => simp [indexOf?_eq, Opener.splitCloser?, Function.comp_def]
  | tag form =>
      have whole : (String.ofList cs).toList = [] ++ cs := String.toList_ofList
      have found := closerIn?_eq (Opener.tag form).closer (.bare 0) whole
      simp only [bytes_nil] at found
      simp [found, Opener.splitCloser?, Function.comp_def]

/-! ## Rounds -/

/-- A closed tag that a round of the scan has found: where the round begins, and the offsets of the
parts of the tag. -/
structure Round where
  opener : Opener
  pos : Nat
  start : Nat
  openDash : Bool
  innerStart : Nat
  innerEnd : Nat
  closeDash : Bool
  close : Nat

/-- What a round finds: no opener, one without closer, or a tag. -/
inductive Found where
  | nothing
  | unclosed (start : Nat) (openDash : Bool) (opener : Opener)
  | tag (round : Round)

/-- Whether there is a minus sign before a closer. One that belongs to the opener is not looked at
again. -/
def closeDash? (source : String) (innerStart close : Nat) : Option Bool :=
  if innerStart < close then (byte? source (close - 1)).map (· == '-'.toUInt8) else some false

/-- Finds the parts of a tag behind its opener. -/
def tag? (source : String) (pos start : Nat) (opener : Opener) : Option Found := do
  let behind ← slice? source (start + 2) source.utf8ByteSize
  let openDash := decide (behind.toList.head? = some '-')
  let innerStart := start + 2 + openDash.toNat
  match ← closer? source opener innerStart with
  | none => return .unclosed start openDash opener
  | some close =>
    let closeDash ← closeDash? source innerStart close
    let innerEnd := close - closeDash.toNat
    return .tag ⟨opener, pos, start, openDash, innerStart, innerEnd, closeDash, close⟩

/-- Looks for the next tag. -/
def look? (source : String) (pos : Nat) : Option Found := do
  match ← opener? source (source.utf8ByteSize + 1) pos with
  | none => return .nothing
  | some (start, opener) => tag? source pos start opener

/-- The token of the text between two offsets. -/
def text? (source : String) (start stop : Nat) (trimmed : Bool) : Option (List Token) := do
  let text ← slice? source start stop
  return textToken (lineAt source start) (if trimmed then trimEnd text.toList else text.toList)

/-- The tokens of a tag. -/
def inside? (source : String) (round : Round) : Option (Except Report (List Token)) :=
  match round.opener with
  | .comment => some (.ok [])
  | .tag form => do
    let interior ← slice? source round.innerStart round.innerEnd
    let line (index : Nat) : Nat :=
      lineAt source (round.innerStart + byteOffset interior.toList index)
    match Lexeme.readAll interior.toList with
    | .error fault =>
      -- the line is found by the offset, so the one from which the report counts does not matter
      return .error { fault.report 1 interior.toList with line := some (line fault.offset) }
    | .ok (row, _) =>
      return .ok (⟨.opening form, lineAt source round.start⟩ ::
        row.zipWith (fun entry place => ⟨entry.2.kind, line place.start⟩) (Lexeme.spans 0 row) ++
          [⟨.closing form, lineAt source round.close⟩])

/-- Where the next round begins. -/
def next? (source : String) (round : Round) : Option Nat := do
  let stop := round.close + 2
  let behind ← slice? source stop source.utf8ByteSize
  if round.closeDash then
    return stop + (behind.utf8ByteSize - bytes (trimStart behind.toList))
  else if round.opener = .tag .output then return stop
  else if ['\r', '\n'].isPrefixOf behind.toList then return stop + 2
  else if ['\n'].isPrefixOf behind.toList then return stop + 1
  else return stop

/-- The rounds of a scan from an offset on, and the tokens from there on. -/
def run? (source : String) : Nat → Nat → Option (List Round × Except Report (List Token))
  | 0, _ => none
  | fuel + 1, pos => do
    match ← look? source pos with
    | .nothing =>
      let text ← text? source pos source.utf8ByteSize false
      return ([], .ok (text ++ [⟨.eof, lineAt source source.utf8ByteSize⟩]))
    | .unclosed start openDash opener =>
      let _ ← text? source pos start openDash
      return ([], .error (.onLine (.unclosed opener) (lineAt source start)))
    | .tag round =>
      let text ← text? source pos round.start round.openDash
      match ← inside? source round with
      | .error report => return ([round], .error report)
      | .ok inside =>
        let next ← next? source round
        let (rounds, rest) ← run? source fuel next
        return (round :: rounds, rest.map (text ++ inside ++ ·))

/-! ## A round finds what the cut finds -/

/-- What stands before the interior of a tag. -/
def upToInterior (before t : List Char) (tag : Tag) : List Char :=
  before ++ t ++ tag.opener.spelling ++ Tag.dash tag.openDash

/-- The offsets of a tag behind some text and a text before it. -/
def Round.of (before t : List Char) (tag : Tag) : Round where
  opener := tag.opener
  pos := bytes before
  start := bytes (before ++ t)
  openDash := tag.openDash
  innerStart := bytes (upToInterior before t tag)
  innerEnd := bytes (upToInterior before t tag ++ tag.interior)
  closeDash := tag.closeDash
  close := bytes (upToInterior before t tag ++ tag.interior ++ Tag.dash tag.closeDash)

/-- What is found at an opener, behind some text and a text before it. -/
def Found.at (before t : List Char) (opener : Opener) (inside : List Char) : Found :=
  match Tag.read? opener inside with
  | none => .unclosed (bytes (before ++ t)) (Tag.splitDash inside).1 opener
  | some (found, _) => .tag (Round.of before t found)

theorem bytes_opener (opener : Opener) : bytes opener.spelling = 2 := by
  cases opener with
  | tag form => cases form <;> rfl
  | comment => rfl

theorem bytes_closer (opener : Opener) : bytes opener.closer = 2 := by
  cases opener with
  | tag form => cases form <;> rfl
  | comment => rfl

theorem bytes_dash (present : Bool) : bytes (Tag.dash present) = present.toNat := by
  cases present <;> rfl

theorem Round.close_add (before t : List Char) (tag : Tag) :
    (Round.of before t tag).close + 2 = bytes (before ++ t ++ tag.spelling) := by
  have closer : before ++ t ++ tag.spelling = upToInterior before t tag ++ tag.interior ++
      Tag.dash tag.closeDash ++ tag.opener.closer := by
    simp only [upToInterior, Tag.spelling, List.append_assoc]
  rw [closer, bytes_append _ tag.opener.closer, bytes_closer]
  rfl

theorem splitDash_fst (cs : List Char) :
    (Tag.splitDash cs).1 = decide (cs.head? = some '-') := by
  unfold Tag.splitDash
  split
  · rfl
  · next noDash =>
    symm
    rw [decide_eq_false_iff_not]
    intro head
    obtain ⟨rest, rfl⟩ := List.head?_eq_some_iff.mp head
    exact noDash rest rfl

theorem splitEndDash_snd (cs : List Char) :
    (Tag.splitEndDash cs).2 = decide (cs.getLast? = some '-') := by
  unfold Tag.splitEndDash
  split <;> simp_all

theorem closeDash?_eq {source : String} {before inside after : List Char}
    (h : source.toList = before ++ inside ++ after) :
    closeDash? source (bytes before) (bytes (before ++ inside)) =
      some (Tag.splitEndDash inside).2 := by
  rw [splitEndDash_snd, closeDash?]
  by_cases empty : inside = []
  · simp [empty]
  · have positive : 0 < bytes inside :=
      Nat.lt_of_lt_of_le (List.length_pos_iff.mpr empty) (length_le_bytes inside)
    have last : (before ++ inside).getLast? = inside.getLast? := by
      rw [List.getLast?_append, List.getLast?_eq_some_getLast empty, Option.some_or]
    obtain ⟨b, byte, sign⟩ := exists_byte?_pred h (by simp [empty])
    rw [if_pos (by rw [bytes_append]; omega), byte, Option.map_some, Option.some.injEq,
      Bool.eq_iff_iff, beq_iff_eq, decide_eq_true_iff, sign '-' (by decide), last]

theorem tag?_eq {source : String} {before t inside : List Char} {opener : Opener}
    (h : source.toList = before ++ t ++ opener.spelling ++ inside) :
    tag? source (bytes before) (bytes (before ++ t)) opener =
      some (.at before t opener inside) := by
  have start : bytes (before ++ t ++ opener.spelling) = bytes (before ++ t) + 2 := by
    rw [bytes_append, bytes_opener]
  have behind := slice?_rest h
  rw [start] at behind
  cases signs : Tag.splitDash inside with
  | mk openDash text =>
    have first : decide (inside.head? = some '-') = openDash := by
      rw [← splitDash_fst, signs]
    -- the sign of the opener, the closer and the sign of the closer are found one behind the other
    have inner : source.toList =
        before ++ t ++ opener.spelling ++ Tag.dash openDash ++ text := by
      have whole := Tag.splitDash_append inside
      rw [signs] at whole
      rw [h, List.append_assoc _ (Tag.dash openDash), whole]
    have innerStart : bytes (before ++ t) + 2 + openDash.toNat =
        bytes (before ++ t ++ opener.spelling ++ Tag.dash openDash) := by
      rw [bytes_append _ (Tag.dash openDash), start, bytes_dash]
    simp only [tag?, Found.at, Option.bind_eq_bind, Option.bind_some, behind, String.toList_ofList,
      first, innerStart, closer?_eq opener inner, Tag.read?, signs]
    cases split : opener.splitCloser? text with
    | none => rfl
    | some halves =>
        obtain ⟨body, rest⟩ := halves
        have closed : source.toList =
            before ++ t ++ opener.spelling ++ Tag.dash openDash ++ body ++
              (opener.closer ++ rest) := by
          rw [inner, ← Opener.splitCloser?_append split]
          simp only [List.append_assoc]
        simp only [Option.map_some, Option.bind_some, closeDash?_eq closed]
        have whole := Tag.splitEndDash_append body
        cases ends : Tag.splitEndDash body with
        | mk interior closeDash =>
          rw [ends] at whole
          rw [← whole, ← List.append_assoc, bytes_append _ (Tag.dash closeDash), bytes_dash]
          simp only [Nat.add_sub_cancel, pure, Round.of, upToInterior,
            bytes_append _ (Tag.dash closeDash), bytes_dash]

section Find

variable {source : String} {before cs t inside : List Char} {opener : Opener}
  (h : source.toList = before ++ cs) (find : Opener.find? cs = some (t, opener, inside))

include h find

theorem toList_of_find? : source.toList = before ++ t ++ (opener.spelling ++ inside) := by
  rw [h, ← Opener.find?_append find]
  simp only [List.append_assoc]

theorem toList_of_read? {tag : Tag} {rest : List Char}
    (read : Tag.read? opener inside = some (tag, rest)) :
    source.toList = before ++ t ++ tag.spelling ++ rest := by
  rw [toList_of_find? h find, ← (Tag.read?_append read).1, ← List.append_assoc _ tag.spelling]

end Find

theorem look?_eq {source : String} {before cs : List Char} (h : source.toList = before ++ cs) :
    look? source (bytes before) =
      some (match Opener.find? cs with
        | none => .nothing
        | some (t, opener, inside) => .at before t opener inside) := by
  have enough : cs.length < source.utf8ByteSize + 1 := by
    have := length_le_bytes cs
    rw [utf8ByteSize_eq, h, bytes_append]
    omega
  rw [look?, opener?_eq h enough]
  cases find : Opener.find? cs with
  | none => rfl
  | some found =>
      obtain ⟨t, opener, inside⟩ := found
      have behind := (toList_of_find? h find).trans (List.append_assoc ..).symm
      simp only [Option.bind_eq_bind, Option.bind_some, Option.map_some, tag?_eq behind]

/-! ## What a round reads -/

variable {source : String}

theorem text?_eq {before t after : List Char} (h : source.toList = before ++ t ++ after)
    (trimmed : Bool) :
    text? source (bytes before) (bytes (before ++ t)) trimmed =
      some (textToken (1 + lineFeeds before) (if trimmed then trimEnd t else t)) := by
  rw [text?, slice?_between h, lineAt_eq (h.trans (List.append_assoc ..))]
  simp only [Option.bind_eq_bind, Option.bind_some, String.toList_ofList]
  rfl

/-- The lexemes of a row stand on the lines on which their first characters are. -/
theorem zipWith_spans (before done : List Char) (row : List (List Char × Lexeme))
    (trail : List Char) :
    row.zipWith (fun entry place => (⟨entry.2.kind, 1 + lineFeeds (before ++
      (done ++ Lexeme.spellAll row ++ trail).take place.start)⟩ : Token))
        (Lexeme.spans done.length row) = Lexeme.tokens (1 + lineFeeds (before ++ done)) row := by
  induction row generalizing done with
  | nil => rfl
  | cons entry row ih =>
      obtain ⟨lead, lexeme⟩ := entry
      have more := ih (done ++ lead ++ lexeme.spelling)
      have whole : done ++ Lexeme.spellAll ((lead, lexeme) :: row) ++ trail =
          done ++ lead ++ (lexeme.spelling ++ Lexeme.spellAll row ++ trail) := by
        simp [Lexeme.spellAll]
      have later : done ++ lead ++ lexeme.spelling ++ Lexeme.spellAll row ++ trail =
          done ++ lead ++ (lexeme.spelling ++ Lexeme.spellAll row ++ trail) := by
        simp only [List.append_assoc]
      rw [later] at more
      rw [Lexeme.spans, List.zipWith_cons_cons, Lexeme.tokens, whole]
      congr 1
      · rw [← List.length_append, List.take_left, ← List.append_assoc, lineFeeds_append _ lead,
          Nat.add_assoc]
      · rw [← List.length_append, ← List.length_append, more, ← List.append_assoc,
          ← List.append_assoc, lineFeeds_append _ lexeme.spelling, lineFeeds_append _ lead]
        simp only [Nat.add_assoc]

section Tag

variable {before t rest : List Char} {tag : Tag}
  (h : source.toList = before ++ t ++ tag.spelling ++ rest)

include h

theorem toList_upToInterior :
    source.toList = upToInterior before t tag ++ tag.interior ++
      (Tag.dash tag.closeDash ++ tag.opener.closer ++ rest) := by
  simp only [h, upToInterior, Tag.spelling, List.append_assoc]

theorem toList_upToCloser :
    source.toList = upToInterior before t tag ++ tag.interior ++ Tag.dash tag.closeDash ++
      (tag.opener.closer ++ rest) := by
  simp only [toList_upToInterior h, List.append_assoc]

theorem inside?_eq :
    inside? source (.of before t tag) = some (tag.tokens (1 + lineFeeds (before ++ t))) := by
  have inner := toList_upToInterior h
  -- neither the opener nor its sign has a line feed
  have feeds (more : List Char) : lineFeeds (upToInterior before t tag ++ more) =
      lineFeeds (before ++ t) + lineFeeds more := by
    simp only [upToInterior, lineFeeds_append, lineFeeds_opener, lineFeeds_dash, Nat.add_zero]
  have start : lineAt source (bytes (before ++ t)) = 1 + lineFeeds (before ++ t) :=
    lineAt_eq (h.trans (List.append_assoc ..))
  have close : lineAt source (bytes (upToInterior before t tag ++ tag.interior ++
      Tag.dash tag.closeDash)) = 1 + lineFeeds (before ++ t) + lineFeeds tag.interior := by
    rw [lineAt_eq (toList_upToCloser h), lineFeeds_append, lineFeeds_dash, feeds, Nat.add_zero,
      Nat.add_assoc]
  unfold inside? Tag.tokens
  cases opener : tag.opener with
  | comment => simp only [Round.of, opener]
  | tag form =>
      simp only [Round.of, opener, slice?_between inner, start, close, Option.bind_eq_bind,
        Option.bind_some, String.toList_ofList, lineAt_index inner]
      cases read : Lexeme.readAll tag.interior with
      | error fault =>
          simp only [feeds, Lexeme.Fault.report, Located.onLine, Nat.add_assoc, pure]
      | ok found =>
          obtain ⟨row, trail⟩ := found
          -- places are counted from the beginning of the interior, lines from that of the source
          have lexemes := zipWith_spans (upToInterior before t tag) [] row trail
          rw [List.nil_append, Lexeme.readAll_append read, feeds [], List.length_nil] at lexemes
          simp only [lexemes, pure]
          rfl

theorem toList_behind :
    source.toList = before ++ t ++ tag.spelling ++ ((Trimming.behind tag).split rest).1 ++
      ((Trimming.behind tag).split rest).2 := by
  rw [h, List.append_assoc _ (Trimming.split ..).1, Trimming.split_append]

omit h in
/-- A line end takes two bytes or one. -/
theorem bytes_lineEnd (cs : List Char) :
    bytes (Trimming.lineEnd.split cs).1 =
      if ['\r', '\n'].isPrefixOf cs then 2 else if ['\n'].isPrefixOf cs then 1 else 0 := by
  simp only [List.isPrefixOf_iff_prefix]
  by_cases crlf : ['\r', '\n'] <+: cs
  · rw [if_pos crlf]
    obtain ⟨rest, rfl⟩ := crlf
    rfl
  by_cases feed : ['\n'] <+: cs
  · rw [if_neg crlf, if_pos feed]
    obtain ⟨rest, rfl⟩ := feed
    rfl
  · rw [if_neg crlf, if_neg feed, Trimming.split_lineEnd_eq_self feed crlf, bytes_nil]

/-- The next round begins behind what the text behind the tag loses at its beginning. -/
theorem next?_eq :
    next? source (.of before t tag) =
      some (bytes (before ++ t ++ tag.spelling ++ ((Trimming.behind tag).split rest).1)) := by
  rw [next?, Round.close_add, slice?_rest h]
  simp only [Option.bind_eq_bind, Option.bind_some, Round.of, String.toList_ofList]
  cases dash : tag.closeDash with
  | true =>
      have blanks : Trimming.behind tag = .blanks := if_pos dash
      -- the bytes that are lost are those by which the text gets shorter
      have lost : bytes (rest.takeWhile isBlank) + bytes (rest.dropWhile isBlank) = bytes rest := by
        rw [← bytes_append, List.takeWhile_append_dropWhile]
      simp only [blanks, Trimming.split, utf8ByteSize_eq, String.toList_ofList, trimStart, pure,
        bytes_append _ (rest.takeWhile isBlank), if_true, ← lost, Nat.add_sub_cancel]
  | false =>
      by_cases output : tag.opener = .tag .output
      · have kept : Trimming.behind tag = .nothing := by simp [Trimming.behind, dash, output]
        simp [kept, Trimming.split, output]
      · have lost : Trimming.behind tag = .lineEnd := by simp [Trimming.behind, dash, output]
        rw [lost, bytes_append _ (Trimming.split ..).1, bytes_lineEnd, if_neg Bool.false_ne_true,
          if_neg output]
        split <;> [rfl; split <;> rfl]

end Tag

/-! ## Safe rounds -/

/-- The offsets of a round at which slices begin and end. -/
def Round.offsets (round : Round) : List Nat :=
  [round.pos, round.start, round.start + 2, round.innerStart, round.innerEnd, round.close,
    round.close + 2]

/-- The offsets of a round are in order and in range and are places, so are the ends of its text
when trimmed and of each beginning of its interior, and the scan goes on at a place behind it. -/
structure Round.Safe (source : String) (round : Round) : Prop where
  pos_le_start : round.pos ≤ round.start
  innerStart_eq : round.innerStart = round.start + 2 + round.openDash.toNat
  innerStart_le_innerEnd : round.innerStart ≤ round.innerEnd
  innerEnd_add : round.innerEnd + round.closeDash.toNat = round.close
  close_add_le : round.close + 2 ≤ source.utf8ByteSize
  isPlace : ∀ offset ∈ round.offsets, IsPlace source offset
  text : ∃ text, slice? source round.pos round.start = some text ∧
    round.pos + bytes (trimEnd text.toList) ≤ round.start ∧
    IsPlace source (round.pos + bytes (trimEnd text.toList))
  sign : round.innerStart < round.close → ∃ byte, byte? source (round.close - 1) = some byte
  interior : ∃ interior, slice? source round.innerStart round.innerEnd = some interior ∧
    ∀ index, round.innerStart + byteOffset interior.toList index ≤ round.innerEnd ∧
      IsPlace source (round.innerStart + byteOffset interior.toList index)
  next : ∃ next, next? source round = some next ∧ round.close + 2 ≤ next ∧
    next ≤ source.utf8ByteSize ∧ IsPlace source next

section Safe

variable {before t rest : List Char} {tag : Tag}
  (h : source.toList = before ++ t ++ tag.spelling ++ rest)

include h

theorem Round.isPlace_of :
    ∀ offset ∈ (Round.of before t tag).offsets, IsPlace source offset := by
  have inner := toList_upToInterior h
  have behindOpener : bytes (before ++ t) + 2 = bytes (before ++ t ++ tag.opener.spelling) := by
    rw [bytes_append _ tag.opener.spelling, bytes_opener]
  simp only [Round.offsets, List.forall_mem_cons, Round.close_add]
  simp only [Round.of, behindOpener]
  have beginning {p : List Char} (begins : p <+: source.toList) : IsPlace source (bytes p) :=
    let ⟨_, eq⟩ := begins
    isPlace_bytes eq.symm
  refine ⟨beginning ?_, beginning ?_, beginning ?_, beginning ?_, beginning ?_, beginning ?_,
    isPlace_bytes h, fun _ none => nomatch none⟩
  · simp [h]
  · simp [h]
  · simp [h, Tag.spelling, List.append_assoc]
  · simp [inner]
  · simp [inner]
  · simp [inner]

theorem Round.safe_of : (Round.of before t tag).Safe source := by
  have inner := toList_upToInterior h
  have place : source.toList = before ++ t ++ (tag.spelling ++ rest) :=
    h.trans (List.append_assoc ..)
  refine
    { pos_le_start := ?pos
      innerStart_eq := ?innerStart
      innerStart_le_innerEnd := ?innerEnd
      innerEnd_add := ?close
      close_add_le := ?size
      isPlace := Round.isPlace_of h
      text := ?text
      sign := ?sign
      interior := ?interior
      next := ?next }
  case pos =>
    simp only [Round.of, bytes_append]
    exact Nat.le_add_right _ _
  case innerStart => simp only [Round.of, upToInterior, bytes_append, bytes_opener, bytes_dash]
  case innerEnd =>
    simp only [Round.of, bytes_append]
    exact Nat.le_add_right _ _
  case close => simp only [Round.of, bytes_append _ (Tag.dash _), bytes_dash]
  case size =>
    rw [Round.close_add]
    exact bytes_le_size h
  case text =>
    refine ⟨_, slice?_between place, ?_⟩
    rw [String.toList_ofList]
    exact isPlace_trimEnd place
  case sign =>
    intro some
    -- the byte before the closer exists, as the closer does not begin the source
    -- what stands before the closer is not empty, so it has a last byte
    have ne : upToInterior before t tag ++ tag.interior ++ Tag.dash tag.closeDash ≠ [] := by
      intro none
      simp only [Round.of, none, bytes_nil] at some
      exact Nat.not_lt_zero _ some
    obtain ⟨byte, found, -⟩ := exists_byte?_pred (toList_upToCloser h) ne
    exact ⟨byte, found⟩
  case interior =>
    refine ⟨_, slice?_between inner, ?_⟩
    rw [String.toList_ofList]
    exact isPlace_index inner
  case next =>
    have later := toList_behind h
    refine ⟨_, next?_eq h, ?_, bytes_le_size later, isPlace_bytes later⟩
    rw [Round.close_add, bytes_append _ (Trimming.split ..).1]
    exact Nat.le_add_right _ _

end Safe

/-! ## Runs -/

/-- Behind a tag that can be read stand the tokens of what the text behind it keeps. -/
theorem tokens_tag_cut (line : Nat) (t : List Char) (tag : Tag) (rest : List Char) :
    (Cut.tag t tag (cut rest)).tokens line .nothing =
      match tag.tokens (line + lineFeeds t) with
      | .error report => .error report
      | .ok inside =>
        let text := textToken line (if tag.openDash then trimEnd t else t)
        ((cut ((Trimming.behind tag).split rest).2).tokens
          (line + lineFeeds (t ++ tag.spelling ++ ((Trimming.behind tag).split rest).1))
            .nothing).map (text ++ inside ++ ·) := by
  simp only [Cut.tokens, Cut.tokens_cut rest, Trimming.split, lineFeeds_append, ← Nat.add_assoc]
  cases tag.tokens (line + lineFeeds t) with
  | error report => rfl
  | ok inside =>
      simp only [bind, Except.bind]
      cases (cut ((Trimming.behind tag).split rest).2).tokens (line + lineFeeds t +
        lineFeeds tag.spelling + lineFeeds ((Trimming.behind tag).split rest).1) .nothing <;> rfl

/-- Safe rounds from an offset on, each of which begins where the scan goes on behind the one
before. -/
inductive SafeFrom (source : String) : Nat → List Round → Prop
  | nil (pos : Nat) : SafeFrom source pos []
  | cons {round : Round} {next : Nat} {rounds : List Round} : round.Safe source →
      next? source round = some next → SafeFrom source next rounds →
      SafeFrom source round.pos (round :: rounds)

theorem Round.Safe.close_add_le_next {round : Round} {next : Nat} (safe : round.Safe source)
    (h : next? source round = some next) : round.close + 2 ≤ next := by
  obtain ⟨_, found, behind, -⟩ := safe.next
  rw [h] at found
  cases found
  exact behind

theorem Round.Safe.pos_le_close {round : Round} (safe : round.Safe source) :
    round.pos ≤ round.close := by
  have := safe.pos_le_start
  have := safe.innerStart_eq
  have := safe.innerStart_le_innerEnd
  have := safe.innerEnd_add
  omega

namespace SafeFrom

variable {pos : Nat} {rounds : List Round}

theorem pos_le (h : SafeFrom source pos rounds) : ∀ round ∈ rounds, pos ≤ round.pos := by
  induction h with
  | nil => exact fun _ mem => nomatch mem
  | cons safe goesOn _ ih =>
      refine List.forall_mem_cons.mpr ⟨Nat.le_refl _, fun later mem => ?_⟩
      have := safe.pos_le_close
      have := safe.close_add_le_next goesOn
      have := ih later mem
      omega

/-- Each tag is found behind all those before it. -/
theorem pairwise (h : SafeFrom source pos rounds) :
    rounds.Pairwise fun earlier later => earlier.close + 2 ≤ later.pos := by
  induction h with
  | nil => exact .nil
  | cons safe goesOn more ih =>
      refine .cons (fun later mem => ?_) ih
      exact Nat.le_trans (safe.close_add_le_next goesOn) (more.pos_le later mem)

end SafeFrom

section Run

variable {before cs : List Char} (h : source.toList = before ++ cs) (fuel : Nat)

include h

/-- Without an opener, the scan ends with a text. -/
theorem run?_of_find?_eq_none (find : Opener.find? cs = none) :
    run? source (fuel + 1) (bytes before) =
      some ([], (cut cs).tokens (1 + lineFeeds before) .nothing) := by
  have text := text?_eq (h.trans (List.append_nil _).symm) false
  rw [← h, ← utf8ByteSize_eq] at text
  rw [run?, look?_eq h]
  simp only [find, Option.bind_eq_bind, Option.bind_some, text, lineAt_size,
    cut_of_find?_eq_none find, Cut.tokens, Trimming.split, h, lineFeeds_append, Nat.add_assoc]
  rfl

variable {t inside : List Char}

/-- At an opener without closer, the scan ends with a report. -/
theorem run?_of_read?_eq_none {opener : Opener}
    (find : Opener.find? cs = some (t, opener, inside)) (read : Tag.read? opener inside = none) :
    run? source (fuel + 1) (bytes before) =
      some ([], (cut cs).tokens (1 + lineFeeds before) .nothing) := by
  have opens := toList_of_find? h find
  rw [run?, look?_eq h]
  simp only [find, Found.at, read, Option.bind_eq_bind, Option.bind_some, text?_eq opens,
    lineAt_eq opens, cut_of_read?_eq_none find read, Cut.tokens, lineFeeds_append, Nat.add_assoc]
  rfl

/-- Behind a tag that can be read, the scan goes on with what the text behind it keeps. -/
theorem run?_of_read?_eq_some {tag : Tag} {rest : List Char}
    (find : Opener.find? cs = some (t, tag.opener, inside))
    (read : Tag.read? tag.opener inside = some (tag, rest)) :
    run? source (fuel + 1) (bytes before) =
      match tag.tokens (1 + lineFeeds (before ++ t)) with
      | .error report => some ([.of before t tag], .error report)
      | .ok inside => (run? source fuel (bytes (before ++ t ++ tag.spelling ++
          ((Trimming.behind tag).split rest).1))).map fun (rounds, more) =>
            (.of before t tag :: rounds, more.map (textToken (1 + lineFeeds before)
              (if tag.openDash then trimEnd t else t) ++ inside ++ ·)) := by
  have closed := toList_of_read? h find read
  rw [run?, look?_eq h]
  have text : text? source (bytes before) (Round.of before t tag).start
      (Round.of before t tag).openDash = _ :=
    text?_eq (closed.trans (List.append_assoc ..)) tag.openDash
  simp only [find, Found.at, read, Option.bind_eq_bind, Option.bind_some, text, inside?_eq closed]
  cases tag.tokens (1 + lineFeeds (before ++ t)) with
  | error report => rfl
  | ok inside =>
      simp only [next?_eq closed, Option.bind_some, Option.map_eq_bind]
      rfl

end Run

/-- The scan from a place on never fails, finds safe rounds, and leaves the tokens of what stands
behind the place. -/
theorem exists_run?_eq {before cs : List Char} (h : source.toList = before ++ cs) :
    ∃ rounds, SafeFrom source (bytes before) rounds ∧ ∀ fuel, cs.length ≤ fuel →
      run? source (fuel + 1) (bytes before) =
        some (rounds, (cut cs).tokens (1 + lineFeeds before) .nothing) := by
  -- what the scan has not yet seen gets shorter with each tag
  induction length : cs.length using Nat.strongRecOn generalizing before cs with
  | ind _ ih =>
      subst length
      cases find : Opener.find? cs with
      | none => exact ⟨[], .nil _, fun fuel _ => run?_of_find?_eq_none h fuel find⟩
      | some found =>
          obtain ⟨t, opener, inside⟩ := found
          cases read : Tag.read? opener inside with
          | none => exact ⟨[], .nil _, fun fuel _ => run?_of_read?_eq_none h fuel find read⟩
          | some found =>
              obtain ⟨tag, rest⟩ := found
              obtain ⟨-, rfl⟩ := Tag.read?_append read
              have closed := toList_of_read? h find read
              have safe := Round.safe_of closed
              have step (fuel : Nat) := run?_of_read?_eq_some h fuel find read
              rw [cut_of_find?_eq_some find read, tokens_tag_cut]
              simp only [lineFeeds_append, ← Nat.add_assoc] at step ⊢
              cases inner : tag.tokens (1 + lineFeeds before + lineFeeds t) with
              | error report =>
                  -- the scan stops here, but the round is safe as well
                  refine ⟨_, .cons safe (next?_eq closed) (.nil _), fun fuel _ => ?_⟩
                  rw [step, inner]
              | ok inside =>
                  have shorter : ((Trimming.behind tag).split rest).2.length < cs.length := by
                    have whole := h.symm.trans (toList_behind closed)
                    simp only [List.append_assoc, List.append_cancel_left_eq] at whole
                    rw [whole]
                    have opener := tag.opener.length_spelling
                    simp only [Tag.spelling, List.length_append]
                    omega
                  obtain ⟨rounds, more, run⟩ := ih _ shorter (toList_behind closed) rfl
                  refine ⟨_, .cons safe (next?_eq closed) more, fun fuel enough => ?_⟩
                  obtain ⟨fuel, rfl⟩ : ∃ less, fuel = less + 1 :=
                    Nat.exists_eq_add_one.mpr (by omega)
                  have goesOn := run fuel (by omega)
                  simp only [lineFeeds_append, ← Nat.add_assoc] at goesOn
                  rw [step, inner]
                  simp only [goesOn, Option.map_some]

/-- Whatever a source holds, the scan by offsets never asks for a part or a byte that is missing. It
comes to an end, leaves the tokens of the source, and finds safe rounds from the beginning on, each
tag behind all those before it. -/
theorem exists_safe_rounds (source : String) :
    ∃ rounds : List Round,
      (∀ fuel, source.utf8ByteSize < fuel → run? source fuel 0 = some (rounds, tokenize source)) ∧
      SafeFrom source 0 rounds ∧
      rounds.Pairwise fun earlier later => earlier.close + 2 ≤ later.pos := by
  obtain ⟨rounds, safe, run⟩ := exists_run?_eq (List.nil_append source.toList).symm
  refine ⟨rounds, fun fuel enough => ?_, safe, safe.pairwise⟩
  have short : source.toList.length ≤ source.utf8ByteSize := by
    rw [utf8ByteSize_eq]
    exact length_le_bytes _
  obtain ⟨fuel, rfl⟩ : ∃ less, fuel = less + 1 := Nat.exists_eq_add_one.mpr (by omega)
  exact run fuel (by omega)

end Scan

end SheetMarkup
