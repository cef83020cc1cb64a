import SheetMarkup.Command.Run

/-!
# Command lines

A command line names a command, `check` or `dump`, and the templates it is about. Options stand
anywhere, before the command too: `-v` asks for more log output, `-a` and `--attribute` give a
document attribute as a value that is the next argument or is joined to the option.

The program leaves the reading of its command line to a library. What is assumed of that library is
this module: how an argument is told from an option and an option from its value, that `--` behind
the command ends the options, and that an option that is given behind the command counts instead of
all that are given before it. Nothing that a command does rests on it: an `Invocation` is all that a
command knows of its command line.
-/

namespace SheetMarkup.Command

/-- What an argument is by itself. -/
inductive Argument where
  | operand
  | separator
  | flag
  | attribute
  | attributeWith (value : String)
  | unknown
deriving DecidableEq, Repr

namespace Argument

/-- What a row of one-letter options is. The first `a` takes the rest, from behind an equals sign if
it begins with one, as its value. -/
def ofLetters : List Char → Argument
  | [] => .flag
  | 'v' :: letters => ofLetters letters
  | ['a'] => .attribute
  | 'a' :: '=' :: value => .attributeWith (String.ofList value)
  | 'a' :: value => .attributeWith (String.ofList value)
  | _ => .unknown

/-- What a long option is, from behind its dashes. -/
def ofWord (word : List Char) : Argument :=
  if word = "verbose".toList then .flag
  else if word = "attribute".toList then .attribute
  else if "attribute=".toList.isPrefixOf word then
    .attributeWith (String.ofList (word.drop "attribute=".length))
  else .unknown

/-- What an argument is. A single dash is no option. -/
def ofChars : List Char → Argument
  | ['-', '-'] => .separator
  | '-' :: '-' :: word => ofWord word
  | '-' :: c :: letters => ofLetters (c :: letters)
  | _ => .operand

/-- What an argument is. -/
def classify (argument : String) : Argument := ofChars argument.toList

end Argument

/-- What is found among arguments, with one more value of an attribute in front of the others. -/
def withValue (value : String) :
    Option (List String × List String) → Option (List String × List String) :=
  Option.map fun (values, others) => (value :: values, others)

/-- Takes off the options in front of the command; the first argument may be the value of the option
before it. The result has the values of the attributes and the arguments from the command on. -/
def leading : (isValue : Bool) → List String → Option (List String × List String)
  -- there must be a command
  | _, [] => none
  | true, argument :: rest =>
    if Argument.classify argument = .operand then withValue argument (leading false rest) else none
  | false, argument :: rest =>
    match Argument.classify argument with
    | .operand => some ([], argument :: rest)
    | .flag => leading false rest
    | .attribute => leading true rest
    | .attributeWith value => withValue value (leading false rest)
    | .separator | .unknown => none

/-- Parts the arguments behind the command into the values of the attributes and the operands; the
first argument may be the value of the option before it. -/
def trailing : (isValue : Bool) → List String → Option (List String × List String)
  | true, [] => none
  | false, [] => some ([], [])
  | true, argument :: rest =>
    if Argument.classify argument = .operand then withValue argument (trailing false rest) else none
  | false, argument :: rest =>
    match Argument.classify argument with
    | .operand => (trailing false rest).map fun (values, others) => (values, argument :: others)
    | .flag => trailing false rest
    | .attribute => trailing true rest
    | .attributeWith value => withValue value (trailing false rest)
    | .separator => some ([], rest)
    | .unknown => none

/-- What a command line asks for, unless it is used wrongly. `check` takes templates, at least one,
and `dump` takes one; the path of a template is not empty. Attributes given before the command only
count if none are given behind it. -/
def invocation? (arguments : List String) : Option Invocation := do
  let (before, rest) ← leading false arguments
  let (behind, operands) ← trailing false rest.tail
  let attributes := if behind.isEmpty then before else behind
  if "" ∈ operands then none
  else
    match rest.head?, operands with
    | some "check", path :: paths => some ⟨attributes, .check (path :: paths)⟩
    | some "dump", [path] => some ⟨attributes, .dump path⟩
    | _, _ => none

/-- How commands are used. -/
def usage : String :=
  "usage: [-v] [-a KEY=VALUE]... check TEMPLATE...\n       [-v] [-a KEY=VALUE]... dump TEMPLATE\n"

end SheetMarkup.Command
