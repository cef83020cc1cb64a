import SheetMarkup.Proofs.Spreadsheet
import SheetMarkup.Proofs.Template.Constructs

/-!
# Reading on behind tokens

A row of tokens leads from one draft to another if whatever can be read behind the tokens from the
other draft on can be read with them from the first one (`Draft.Leads`). Every construct leads to
the draft that comes of it, and rows that lead on from each other can be put together. The names of
tags that open something end no body, whatever is open (`OpenTag.not_mem_ends`), so such tags lead
on from every draft.
-/

namespace SheetMarkup

open Token (kinds)

/-! ## Names that begin tags -/

/-- A name that is not that of a tag which parts or ends a body. -/
def Begins (name : String) : Prop := name ≠ "else" ∧ ¬ "end".toList <+: name.toList

theorem begins_tag (e : Element) : Begins e.tag := by
  cases e <;> exact ⟨by decide, by decide⟩

/-- The tag of a directive of a spreadsheet ends nothing. -/
theorem begins_of_find? {attributes : OrderedMap String} {name : String} {d : Directive}
    (found : (Dialect.spreadsheet attributes).find? name = some d) : Begins name := by
  obtain ⟨e, rfl, -⟩ := Dialect.exists_element_of_find? found
  exact begins_tag e

theorem not_mem_host_tag (e : Element) : e.tag ∉ ["if", "for", "macro"] := by
  cases e <;> decide

theorem OpenTag.not_mem_ends {name : String} (h : Begins name) (tag : OpenTag) :
    name ∉ tag.ends := by
  obtain ⟨other, noEnd⟩ := h
  intro mem
  cases tag with
  | thenBody =>
      -- the first body of a condition also ends with `else`
      simp only [ends, List.mem_cons, List.not_mem_nil, or_false] at mem
      rcases mem with rfl | rfl
      · exact other rfl
      · exact noEnd (by decide)
  | directive _ d _ =>
      cases List.mem_singleton.mp mem
      exact noEnd (by simp [Directive.endTag])
  | _ =>
      cases List.mem_singleton.mp mem
      exact noEnd (by decide)

namespace Draft

variable {dialect : Dialect} {draft draft' draft'' : Draft} {s : TokenStream}
  {tokens more : List Token}

theorem not_endsAt {line : Nat} {name : String} (h : Begins name) (draft : Draft) :
    ¬ draft.EndsAt .atEnd line name := by
  obtain ⟨body, enclosing⟩ := draft
  cases enclosing with
  | nil => simp [EndsAt, Bound.stopsAt]
  | cons first enclosing => exact first.1.not_mem_ends h

/-! ## From draft to draft -/

/-- Tokens that are a block tag by their kinds are one on some lines. -/
theorem exists_blockTag_of_kinds {tokens : List Token} {name : String} {ks : List Token.Kind}
    (spelled : kinds tokens =
      .opening .block :: (.name name :: ks) ++ [.closing .block]) :
    ∃ opened line row closed, tokens = blockTag opened line name row closed ∧ kinds row = ks := by
  obtain ⟨⟨_, opened⟩, tokens, rfl, rfl, behind⟩ := List.map_eq_cons_iff.mp spelled
  obtain ⟨inside, ending, rfl, inner, ends⟩ := List.map_eq_append_iff.mp behind
  obtain ⟨⟨_, line⟩, row, rfl, rfl, rest⟩ := List.map_eq_cons_iff.mp inner
  obtain ⟨⟨_, closed⟩, _, rfl, rfl, nothing⟩ := List.map_eq_cons_iff.mp ends
  cases List.map_eq_nil_iff.mp nothing
  exact ⟨opened, line, row, closed, rfl, rest⟩

/-- What can be read behind some tokens from one draft on, can be read with them from another. -/
def Leads (dialect : Dialect) (draft : Draft) (tokens : List Token) (s : TokenStream)
    (draft' : Draft) : Prop :=
  ∀ node, Reads dialect draft' s node → Reads dialect draft (s.prepend tokens) node

theorem Leads.refl (dialect : Dialect) (draft : Draft) (s : TokenStream) :
    Leads dialect draft [] s draft := fun _ => id

theorem Leads.trans (h : Leads dialect draft tokens (s.prepend more) draft')
    (h' : Leads dialect draft' more s draft'') :
    Leads dialect draft (tokens ++ more) s draft'' := by
  intro node reads
  rw [TokenStream.prepend_append]
  exact h node (h' node reads)

theorem Takes.leads (h : draft.Takes dialect .atEnd s.current.line tokens draft') :
    Leads dialect draft tokens s draft' := fun _ => .more h

end Draft

/-- A tag that something in a spreadsheet begins with ends nothing. -/
theorem Opening.begins {attributes : OrderedMap String} {line : Nat} {name : String}
    {row : List Token} {tag : OpenTag}
    (h : Opening (.spreadsheet attributes) line name row tag) : Begins name := by
  cases h with
  | choice => exact ⟨by decide, by decide⟩
  | loop => exact ⟨by decide, by decide⟩
  | definition => exact ⟨by decide, by decide⟩
  | directive _ found _ _ => exact begins_of_find? found

end SheetMarkup
