import SheetMarkup.Token.Basic

/-!
# Tags in a source

A tag begins at the leftmost `{{`, `{%` or `{#` and ends at its closer. The closer of a comment is
the first `#}`; the closer of another tag is the first one outside quotes and outside all braces
opened in the tag. A minus sign right after the opener or right before the closer asks for the text
on that side to be trimmed; one that could be both counts for the opener.
-/

namespace SheetMarkup

/-- What begins a tag: one that leaves tokens, or a comment. -/
inductive Opener where
  | tag (form : TagForm)
  | comment
deriving DecidableEq, Repr

/-- A whole tag: its interior without the minus signs, and whether there is one at either end. -/
structure Tag where
  opener : Opener
  openDash : Bool
  interior : List Char
  closeDash : Bool
deriving DecidableEq, Repr

/-- How far the search for a closer is inside nested braces and quotes. -/
inductive Nesting where
  | bare (depth : Nat)
  | quoted (quote : Char) (depth : Nat)
  | escaped (quote : Char) (depth : Nat)
deriving DecidableEq, Repr

namespace Opener

/-- How an opener is written. -/
def spelling : Opener → List Char
  | tag form => form.opener.toList
  | comment => ['{', '#']

/-- What closes a tag with this opener. -/
def closer : Opener → List Char
  | tag form => form.closer.toList
  | comment => ['#', '}']

/-- Splits off the opener with which a text begins. -/
def split? : List Char → Option (Opener × List Char)
  | '{' :: '{' :: rest => some (tag .output, rest)
  | '{' :: '%' :: rest => some (tag .block, rest)
  | '{' :: '#' :: rest => some (comment, rest)
  | _ => none

/-- The text before the leftmost opener, the opener, and what follows it. -/
def find? : List Char → Option (List Char × Opener × List Char)
  | [] => none
  | c :: cs =>
    match split? (c :: cs) with
    | some (opener, rest) => some ([], opener, rest)
    | none => (find? cs).map fun (text, found) => (c :: text, found)

theorem split?_append {cs rest : List Char} {opener : Opener}
    (h : split? cs = some (opener, rest)) : opener.spelling ++ rest = cs := by
  unfold split? at h
  split at h <;> cases h <;> rfl

theorem find?_append {cs text rest : List Char} {opener : Opener}
    (h : find? cs = some (text, opener, rest)) : text ++ opener.spelling ++ rest = cs := by
  induction cs generalizing text with
  | nil => cases h
  | cons c cs ih =>
    simp only [find?] at h
    split at h
    · next hs => cases h; exact split?_append hs
    · simp only [Option.map_eq_some_iff, Prod.exists, Prod.mk.injEq] at h
      obtain ⟨text', _, _, hf, rfl, rfl, rfl⟩ := h
      simpa using ih hf

end Opener

namespace Nesting

/-- The nesting after one more character. A closing brace without an open one changes nothing. -/
def next : Nesting → Char → Nesting
  | bare depth, c =>
    if c = '"' ∨ c = '\'' then quoted c depth
    else if c = '{' then bare (depth + 1)
    else if c = '}' then bare (depth - 1)
    else bare depth
  | quoted quote depth, c =>
    if c = '\\' then escaped quote depth else if c = quote then bare depth else quoted quote depth
  | escaped quote depth, _ => quoted quote depth

/-- Splits a text at the first closer that is outside all quotes and braces; the closer itself is
left out. -/
def split? (closer : List Char) (nesting : Nesting) : List Char → Option (List Char × List Char)
  | [] => none
  | c :: cs =>
    if nesting = bare 0 ∧ closer.isPrefixOf (c :: cs) then
      some ([], (c :: cs).drop closer.length)
    else (split? closer (nesting.next c) cs).map fun (before, after) => (c :: before, after)

theorem split?_append {closer cs before after : List Char} {nesting : Nesting}
    (h : split? closer nesting cs = some (before, after)) : before ++ closer ++ after = cs := by
  induction cs generalizing nesting before with
  | nil => cases h
  | cons c cs ih =>
    simp only [split?] at h
    split at h
    · next here =>
      cases h
      obtain ⟨t, ht⟩ := List.isPrefixOf_iff_prefix.mp here.2
      rw [List.nil_append, ← ht, List.drop_left]
    · simp only [Option.map_eq_some_iff, Prod.exists, Prod.mk.injEq] at h
      obtain ⟨before', _, hs, rfl, rfl⟩ := h
      simpa using ih hs

end Nesting

/-- Splits a text at the first occurrence of a mark, which is left out. -/
def splitAtMark? (mark : List Char) : List Char → Option (List Char × List Char)
  | [] => none
  | c :: cs =>
    if mark.isPrefixOf (c :: cs) then some ([], (c :: cs).drop mark.length)
    else (splitAtMark? mark cs).map fun (before, after) => (c :: before, after)

theorem splitAtMark?_append {mark cs before after : List Char}
    (h : splitAtMark? mark cs = some (before, after)) : before ++ mark ++ after = cs := by
  induction cs generalizing before with
  | nil => cases h
  | cons c cs ih =>
    simp only [splitAtMark?] at h
    split at h
    · next here =>
      cases h
      obtain ⟨t, ht⟩ := List.isPrefixOf_iff_prefix.mp here
      rw [List.nil_append, ← ht, List.drop_left]
    · simp only [Option.map_eq_some_iff, Prod.exists, Prod.mk.injEq] at h
      obtain ⟨before', _, hs, rfl, rfl⟩ := h
      simpa using ih hs

namespace Opener

/-- Splits what follows an opener, and its minus sign, at the closer of the tag. -/
def splitCloser? : Opener → List Char → Option (List Char × List Char)
  | tag form, cs => Nesting.split? (tag form).closer (.bare 0) cs
  | comment, cs => splitAtMark? comment.closer cs

theorem splitCloser?_append {opener : Opener} {cs before after : List Char}
    (h : opener.splitCloser? cs = some (before, after)) :
    before ++ opener.closer ++ after = cs := by
  cases opener with
  | tag form => exact Nesting.split?_append h
  | comment => exact splitAtMark?_append h

end Opener

namespace Tag

/-- A minus sign, or nothing. -/
def dash (present : Bool) : List Char := if present then ['-'] else []

/-- How a tag is written. -/
def spelling (tag : Tag) : List Char :=
  tag.opener.spelling ++ dash tag.openDash ++ tag.interior ++ dash tag.closeDash ++
    tag.opener.closer

/-- Splits off the minus sign with which a text begins. -/
def splitDash : List Char → Bool × List Char
  | '-' :: cs => (true, cs)
  | cs => (false, cs)

/-- Splits off the minus sign with which a text ends. -/
def splitEndDash (cs : List Char) : List Char × Bool :=
  if cs.getLast? = some '-' then (cs.dropLast, true) else (cs, false)

/-- Reads the rest of a tag, from behind its opener. -/
def read? (opener : Opener) (cs : List Char) : Option (Tag × List Char) := do
  -- the sign behind the opener goes first, so a lone one is not seen before the closer
  let (openDash, inside) := splitDash cs
  let (inside, rest) ← opener.splitCloser? inside
  let (interior, closeDash) := splitEndDash inside
  return (⟨opener, openDash, interior, closeDash⟩, rest)

theorem splitDash_append (cs : List Char) : dash (splitDash cs).1 ++ (splitDash cs).2 = cs := by
  unfold splitDash
  split <;> rfl

theorem splitEndDash_append (cs : List Char) :
    (splitEndDash cs).1 ++ dash (splitEndDash cs).2 = cs := by
  unfold splitEndDash
  split
  · next h =>
    have := List.getLast?_eq_some_iff.mp h
    obtain ⟨ys, rfl⟩ := this
    simp [dash]
  · simp [dash]

/-- A tag that is read is a beginning of the text, up to its opener. -/
theorem read?_append {opener : Opener} {cs rest : List Char} {tag : Tag}
    (h : read? opener cs = some (tag, rest)) :
    tag.spelling ++ rest = opener.spelling ++ cs ∧ tag.opener = opener := by
  simp only [read?, Option.bind_eq_bind, Option.bind_eq_some_iff, Prod.exists, pure,
    Option.some.injEq, Prod.mk.injEq] at h
  obtain ⟨inside, _, hs, rfl, rfl⟩ := h
  refine ⟨?_, rfl⟩
  have split := splitDash_append cs
  rw [← Opener.splitCloser?_append hs] at split
  generalize (splitDash cs).1 = openDash at split ⊢
  rw [← split]
  simp only [spelling, List.append_assoc]
  rw [← List.append_assoc (splitEndDash inside).1, splitEndDash_append]

end Tag

end SheetMarkup
