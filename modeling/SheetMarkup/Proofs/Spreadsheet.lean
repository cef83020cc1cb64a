import SheetMarkup.Directive

/-!
# The spreadsheet dialect

The directives of a spreadsheet are those of the elements, each under the tag of its element and no
other: `Dialect.find?` is `Element.ofTag?`.
-/

namespace SheetMarkup

namespace Element

theorem ofTag?_tag (element : Element) : ofTag? element.tag = some element := by
  cases element <;> rfl

theorem ofTag?_eq_some_iff {name : String} {element : Element} :
    ofTag? name = some element ↔ element.tag = name := by
  constructor
  · intro h
    simpa using List.find?_some h
  · rintro rfl
    exact ofTag?_tag element

/-- No element has the tag of another one. -/
theorem tag_injective {a b : Element} (h : a.tag = b.tag) : a = b := by
  have same := (ofTag?_tag a).symm.trans ((congrArg ofTag? h).trans (ofTag?_tag b))
  exact Option.some.inj same

end Element

namespace Dialect

/-- Registering the directives of elements adds their tags and changes no other one. -/
theorem find?_foldl_register (attributes : OrderedMap String) (elements : List Element)
    (dialect : Dialect) (name : String) :
    ((elements.map (Element.directive attributes)).foldl register dialect).find? name =
      (((Element.ofTag? name).filter (· ∈ elements)).map (Element.directive attributes)).or
        (dialect.find? name) := by
  -- the first element is registered before the others, so the dialect is general
  induction elements generalizing dialect with
  | nil => cases Element.ofTag? name <;> simp [Option.filter]
  | cons first elements ih =>
      rw [List.map_cons, List.foldl_cons, ih, find?_register]
      have tag : (first.directive attributes).tag = first.tag := rfl
      cases found : Element.ofTag? name with
      | none =>
          have other : first.tag ≠ name := by
            rintro rfl
            simp [Element.ofTag?_tag] at found
          simp [tag, other]
      | some element =>
          have name_eq := Element.ofTag?_eq_some_iff.mp found
          subst name_eq
          by_cases mem : element ∈ elements
          · simp [Option.filter, mem]
          · by_cases same : element = first
            · subst same
              simp [Option.filter, mem, tag]
            · have other : first.tag ≠ element.tag :=
                fun eq => same (Element.tag_injective eq.symm)
              simp [Option.filter, mem, tag, other, same]

/-- The directive that a spreadsheet has for a tag is that of the element with the tag. -/
theorem find?_spreadsheet (attributes : OrderedMap String) (name : String) :
    (spreadsheet attributes).find? name =
      (Element.ofTag? name).map (Element.directive attributes) := by
  rw [spreadsheet, find?_foldl_register]
  have all : (Element.ofTag? name).filter (· ∈ Element.all) = Element.ofTag? name := by
    cases Element.ofTag? name with
    | none => rfl
    | some element => simp [Element.mem_all]
  rw [all]
  exact Option.or_none

/-- Each directive of a spreadsheet is that of the element with its tag. -/
theorem exists_element_of_find? {attributes : OrderedMap String} {name : String} {d : Directive}
    (found : (spreadsheet attributes).find? name = some d) :
    ∃ e : Element, e.tag = name ∧ d = e.directive attributes := by
  rw [find?_spreadsheet, Option.map_eq_some_iff] at found
  obtain ⟨e, named, rfl⟩ := found
  exact ⟨e, Element.ofTag?_eq_some_iff.mp named, rfl⟩

end Dialect

end SheetMarkup
