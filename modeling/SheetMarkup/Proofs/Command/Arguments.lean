import SheetMarkup.Command.Arguments

/-!
# Written command lines

Whatever is to be done can be asked for: every attribute joined to an option of its own, in front of
the command or behind it, and the paths behind `--`, where nothing is taken for an option
(`Action.line`). Such a line is read as what it asks for (`invocation?_line`).
-/

namespace SheetMarkup.Command

/-- An attribute joined to the option that gives it. -/
def attributeOption (value : String) : String := "--attribute=" ++ value

/-- The name of the command that does an action. -/
def Action.command : Action → String
  | check _ => "check"
  | dump _ => "dump"

/-- The paths of the templates that an action is about. -/
def Action.operands : Action → List String
  | check paths => paths
  | dump path => [path]

/-- A command line that asks for an action, with attributes in front of the command and behind
it. -/
def Action.line (action : Action) (before behind : List String) : List String :=
  before.map attributeOption ++
    action.command :: (behind.map attributeOption ++ "--" :: action.operands)

theorem classify_attributeOption (value : String) :
    Argument.classify (attributeOption value) = .attributeWith value := by
  have letters : (attributeOption value).toList =
      '-' :: '-' :: ("attribute=".toList ++ value.toList) := by
    simp [attributeOption]
  have joined : "attribute=".toList.isPrefixOf ("attribute=".toList ++ value.toList) = true :=
    List.isPrefixOf_iff_prefix.mpr (List.prefix_append _ _)
  have kept : ("attribute=".toList ++ value.toList).drop "attribute=".length = value.toList :=
    List.drop_left' rfl
  rw [Argument.classify, letters, Argument.ofChars, Argument.ofWord, if_neg (by simp),
    if_neg (by simp), if_pos joined, kept, String.ofList_toList]
  simp

theorem leading_attributes {command : String} (operand : Argument.classify command = .operand)
    (before rest : List String) :
    leading false (before.map attributeOption ++ command :: rest) =
      some (before, command :: rest) := by
  induction before with
  | nil => simp only [List.map_nil, List.nil_append, leading, operand]
  | cons value before ih =>
      simp only [List.map_cons, List.cons_append, leading, classify_attributeOption, ih, withValue,
        Option.map_some]

theorem trailing_attributes (behind paths : List String) :
    trailing false (behind.map attributeOption ++ "--" :: paths) = some (behind, paths) := by
  have separator : Argument.classify "--" = .separator := rfl
  induction behind with
  | nil => simp only [List.map_nil, List.nil_append, trailing, separator]
  | cons value behind ih =>
      simp only [List.map_cons, List.cons_append, trailing, classify_attributeOption, ih, withValue,
        Option.map_some]

/-- A command line is read as the action that it asks for, under the attributes behind the command
if there are any, and else under those in front of it. -/
theorem invocation?_line {action : Action} (some_path : action.operands ≠ [])
    (named : "" ∉ action.operands) (before behind : List String) :
    invocation? (action.line before behind) =
      some ⟨if behind.isEmpty then before else behind, action⟩ := by
  have operand : Argument.classify action.command = .operand := by
    cases action <;> rw [Action.command] <;> rfl
  rw [invocation?, Action.line, leading_attributes operand]
  simp only [Option.bind_eq_bind, Option.bind_some, List.tail_cons, trailing_attributes,
    List.head?_cons, if_neg named]
  cases action with
  | check paths =>
      cases paths with
      | nil => exact absurd rfl some_path
      | cons path paths => rfl
  | dump path => rfl

end SheetMarkup.Command
