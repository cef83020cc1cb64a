import SheetMarkup.Source.Tag

/-!
# Cutting a source into texts and tags

A source is text, then a tag, then text again, and so on; it ends with a text, or with an opener
whose tag is never closed. `cut` finds the tags from left to right, each behind the one before, and
loses nothing of the source (`spelling_cut`).
-/

namespace SheetMarkup

/-- A source as texts and tags. -/
inductive Cut where
  | text (text : List Char)
  | unclosed (text : List Char) (opener : Opener) (rest : List Char)
  | tag (text : List Char) (tag : Tag) (after : Cut)
deriving DecidableEq, Repr

namespace Cut

/-- The source that was cut. -/
def spelling : Cut → List Char
  | .text t => t
  | .unclosed t opener rest => t ++ opener.spelling ++ rest
  | .tag t found after => t ++ found.spelling ++ after.spelling

end Cut

/-- Cuts a source at its tags. -/
def cut (cs : List Char) : Cut :=
  match _find : Opener.find? cs with
  | none => .text cs
  | some (text, opener, inside) =>
    match _read : Tag.read? opener inside with
    | none => .unclosed text opener inside
    | some (tag, rest) => .tag text tag (cut rest)
termination_by cs.length
decreasing_by
  obtain ⟨split, eq⟩ := Tag.read?_append _read
  have len := congrArg List.length (Opener.find?_append _find)
  have := congrArg List.length split
  simp only [Tag.spelling, eq, List.length_append] at this len
  have : 0 < opener.spelling.length := by cases opener with
    | tag form => cases form <;> decide
    | comment => decide
  have : 0 < opener.closer.length := by cases opener with
    | tag form => cases form <;> decide
    | comment => decide
  omega

/-- Cutting loses nothing. -/
theorem spelling_cut (cs : List Char) : (cut cs).spelling = cs := by
  fun_induction cut cs with
  | case1 => rfl
  | case2 cs text opener inside hf hr => exact Opener.find?_append hf
  | case3 cs text opener inside hf tag rest hr ih =>
    rw [Cut.spelling, ih, List.append_assoc, (Tag.read?_append hr).1, ← List.append_assoc]
    exact Opener.find?_append hf

end SheetMarkup
