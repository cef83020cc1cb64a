import SheetMarkup.Compile

/-!
# Running commands

A command compiles templates under the document attributes it is given. `check` tells of each
template whether it compiles, whatever becomes of the others, and `dump` writes the outline of one.
Attributes are read before any template is.

A command is run in the monad in which files are read. In that of a program, a run reads the files
one after another; where files are given as a function, what it comes to is a function of them.
-/

namespace SheetMarkup.Command

/-- What is to be done. -/
inductive Action where
  | check (paths : List String)
  | dump (path : String)
deriving DecidableEq, Repr

/-- What a command line asks for: attributes as they are written, and an action. -/
structure Invocation where
  attributes : List String
  action : Action
deriving DecidableEq, Repr

/-- What is found under the path of a template. -/
inductive Content where
  | missing
  | notText
  | text (source : String)
deriving DecidableEq, Repr

/-- What a command writes, and the status it ends with. -/
structure Outcome where
  status : Nat
  output : String
  errors : String
deriving DecidableEq, Repr

/-- The content that a file of these bytes has. -/
def Content.ofBytes (bytes : ByteArray) : Content :=
  match String.fromUTF8? bytes with
  | some source => .text source
  | none => .notText

/-- The key and value of an attribute argument: what stands before its first equals sign, without
the blanks around it, and all that stands behind it. -/
def readAttribute? (argument : String) : Option (String × String) :=
  let cs := argument.toList
  match cs.dropWhile (· ≠ '=') with
  | [] => none
  | _ :: value =>
    some (String.ofList (Text.trim (cs.takeWhile (· ≠ '='))), String.ofList value)

/-- The attributes of a document, or the first argument that is none. -/
def readAttributes (arguments : List String) : Except String (OrderedMap String) :=
  arguments.foldlM
    (fun map argument =>
      match readAttribute? argument with
      | some (key, value) => .ok (map.insert key value)
      | none => .error argument)
    .empty

/-- Compiles what is found under a path; what cannot be compiled is told in a line. -/
def compileContent (dialect : Dialect) (path : String) : Content → Except String Template
  | .missing => .error ("failed to read " ++ path ++ ": No such file or directory (os error 2)")
  | .notText => .error ("failed to read " ++ path ++ ": stream did not contain valid UTF-8")
  | .text source =>
    match dialect.compile path source with
    | .ok template => .ok template
    | .error report => .error report.display

/-- The outcome of a command that fails as a whole. -/
def failure (message : String) : Outcome := ⟨1, "", "error: " ++ message ++ "\n"⟩

/-- One outcome after another: the texts follow each other, and the status is the greater one. -/
def Outcome.andThen (a b : Outcome) : Outcome :=
  ⟨max a.status b.status, a.output ++ b.output, a.errors ++ b.errors⟩

/-- What `check` comes to for a template: it tells whether the template compiles. -/
def Outcome.ofCheck (path : String) : Except String Template → Outcome
  | .ok _ => ⟨0, "ok: " ++ path ++ "\n", ""⟩
  | .error message => ⟨1, "", message ++ "\n"⟩

/-- What `dump` comes to: it writes the outline of the template. -/
def Outcome.ofDump : Except String Template → Outcome
  | .ok template => ⟨0, template.outline, ""⟩
  | .error message => failure message

section Read

variable {m : Type → Type} [Monad m] (dialect : Dialect) (read : String → m Content)

/-- Compiles the file under a path. -/
def compileFile (path : String) : m (Except String Template) := do
  let content ← read path
  return compileContent dialect path content

/-- Checks files one after another, whatever comes of each of them. -/
def checkFiles : List String → m Outcome
  | [] => return ⟨0, "", ""⟩
  | path :: paths => do
    let verdict ← compileFile dialect read path
    let others ← checkFiles paths
    return (Outcome.ofCheck path verdict).andThen others

/-- Does what is asked for, with files read by `read`. -/
def Action.runWith : Action → m Outcome
  | .check paths => checkFiles dialect read paths
  | .dump path => Outcome.ofDump <$> compileFile dialect read path

/-- Runs an invocation, with files read by `read`. -/
def Invocation.runWith (invocation : Invocation) : m Outcome :=
  match readAttributes invocation.attributes with
  | .ok found => invocation.action.runWith (.spreadsheet found) read
  | .error argument =>
    return failure ("attribute '" ++ argument ++ "' must have the form KEY=VALUE")

end Read

/-- Does what is asked for where `files` is what is found under each path. -/
def Action.run (dialect : Dialect) (files : String → Content) (action : Action) : Outcome :=
  Id.run (action.runWith dialect fun path => pure (files path))

/-- Runs an invocation where `files` is what is found under each path. -/
def Invocation.run (files : String → Content) (invocation : Invocation) : Outcome :=
  Id.run (invocation.runWith fun path => pure (files path))

end SheetMarkup.Command
