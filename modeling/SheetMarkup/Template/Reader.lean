import SheetMarkup.Directive
import SheetMarkup.Source.Tokens
import SheetMarkup.Template.Reading

/-!
# Reading templates

A template is read one construct at a time: a text, an output tag, or a block tag. A block tag with
a body opens it, and the tags open at a time are kept on a stack, each with the body that it
interrupts. A block tag whose name ends the innermost body closes that, and the node goes into the
body outside. Every construct takes at least one token (`length_lt_of_step`), so the reading ends.
-/

namespace SheetMarkup

/-- A body being read: the line it starts on and its nodes, the last one first. -/
structure Body where
  line : Nat
  nodes : List Node

/-- A tag whose body is being read. -/
inductive OpenTag where
  | thenBody (line : Nat) (condition : Expr)
  | elseBody (line : Nat) (condition : Expr) (thenBody : Node)
  | loop (line : Nat) (binding : String) (iterable : Expr)
  | definition (line : Nat) (name : String) (arguments : List String)
  | directive (line : Nat) (directive : Directive) (parameters : OrderedMap Expr)

/-- What has been read of a template: the innermost body, and the tags open around it, innermost
first, each with the body that it interrupts. -/
structure Draft where
  body : Body
  enclosing : List (OpenTag × Body)

/-- Where a reading stops: at the end of the template, or at the first block tag whose name passes a
test and closes nothing opened since; the name is then taken or not. -/
inductive Bound where
  | atEnd
  | atName (test : Token → Bool) (taken : Bool)

namespace Body

/-- The node of a body. -/
def node (body : Body) : Node := .list body.line body.nodes.reverse

/-- Adds a node at the end. -/
def push (body : Body) (node : Node) : Body := { body with nodes := node :: body.nodes }

end Body

namespace OpenTag

/-- The names of the block tags that end the body. -/
def ends : OpenTag → List String
  | thenBody .. => ["else", "endif"]
  | elseBody .. => ["endif"]
  | loop .. => ["endfor"]
  | definition .. => ["endmacro"]
  | directive _ d _ => [d.endTag]

/-- The node of a tag whose last body this is. -/
def node (body : Node) : OpenTag → Node
  | thenBody line condition => .choice line condition body none
  | elseBody line condition first => .choice line condition first (some body)
  | loop line binding iterable => .loop line binding iterable body
  | definition line name arguments => .definition line name arguments body
  | directive line d parameters => d.node line parameters (some body)

end OpenTag

namespace Draft

/-- Adds a node to the innermost body. -/
def push (draft : Draft) (node : Node) : Draft := { draft with body := draft.body.push node }

end Draft

namespace Bound

/-- The bound at a block tag with one of these names. -/
def atTag (names : List String) (taken : Bool) : Bound :=
  .atName (fun token => names.any token.isName) taken

instance (bound : Bound) : Decidable (bound = .atEnd) :=
  match bound with
  | .atEnd => isTrue rfl
  | .atName .. => isFalse nofun

/-- Whether a block tag whose name is this token stops the reading. -/
def stopsAt : Bound → Token → Bool
  | atEnd, _ => false
  | atName test _, token => test token

/-- Whether the name of the tag at which the reading stops is taken. -/
def takesName : Bound → Bool
  | atEnd => false
  | atName _ taken => taken

end Bound

open Reading

/-! ## Constructs -/

/-- Takes the closer of a block tag. -/
def endBlock : Reading Unit := discard (expect (.closing .block))

/-- An expression as an item of a repetition. -/
def expressionItem : Item Expr := ⟨expression, .expression⟩

/-- A name as an item of a repetition. -/
def nameItem : Item String := ⟨expectName, .expectName⟩

/-- A name behind a comma as an item of a repetition. -/
def laterNameItem : Item String :=
  ⟨expect (.symbol .comma) >>= fun _ => expectName,
    .bind_right (.expect _) fun _ => .expectName⟩

/-- The parameters in the tag of a directive whose name is this token, and the closer of the tag. -/
def Directive.readParameters (directive : Directive) (name : Token) :
    Reading (OrderedMap Expr) := do
  let schema ← ofExcept (Schema.ofList (directive.parameters name))
  let expressions ← collect (.closing .block) expressionItem expressionItem
  endBlock
  ofExcept (schema.bind expressions)

namespace Draft

/-- Begins the body of a tag. -/
def enter (draft : Draft) (tag : OpenTag) : Reading Draft := do
  let token ← current
  return ⟨⟨token.line, []⟩, (tag, draft.body) :: draft.enclosing⟩

/-- Reads an output tag, from behind its opener on. -/
def readOutput (draft : Draft) (line : Nat) : Reading Draft := do
  let value ← expression
  let _ ← expect (.closing .output)
  return draft.push (.print line value)

/-- Reads the tag of a condition, from behind its name on. -/
def openChoice (draft : Draft) (line : Nat) : Reading Draft := do
  let condition ← expression
  endBlock
  draft.enter (.thenBody line condition)

/-- Reads the tag of a loop, from behind its name on. -/
def openLoop (draft : Draft) (line : Nat) : Reading Draft := do
  let binding ← expectName
  let _ ← expectKeyword "in"
  let iterable ← expression
  endBlock
  draft.enter (.loop line binding iterable)

/-- Reads the tag of a macro, from behind its name on. -/
def openDefinition (draft : Draft) (line : Nat) : Reading Draft := do
  let name ← expectName
  let _ ← expect (.symbol .openParen)
  let arguments ← collect (.symbol .closeParen) nameItem laterNameItem
  let _ ← expect (.symbol .closeParen)
  endBlock
  draft.enter (.definition line name arguments)

/-- Reads the tag of a directive, from behind its name on, which is this token. Reports about its
parameters are about the line of the tag. -/
def openDirective (draft : Draft) (name : Token) (directive : Directive) : Reading Draft := do
  let parameters ← (directive.readParameters name).orLine name.line
  if directive.hasBody then draft.enter (.directive name.line directive parameters)
  else return draft.push (directive.node name.line parameters none)

/-- What is reported about a block tag that is neither a host tag nor a directive. -/
def foreignTag (name : String) : Cause :=
  if "end".toList.isPrefixOf name.toList ∨ name = "else" then .unexpectedTag name
  else .unknownTag name

/-- Reads a block tag that closes nothing, from behind its name on. -/
def openTag (draft : Draft) (dialect : Dialect) (line : Nat) (name : String) : Reading Draft :=
  if name = "if" then draft.openChoice line
  else if name = "for" then draft.openLoop line
  else if name = "macro" then draft.openDefinition line
  else
    match dialect.find? name with
    | some directive => draft.openDirective ⟨.name name, line⟩ directive
    | none => throw (.onLine (foreignTag name) line)

/-- Reads the rest of a block tag that ends the body of `tag`. What `else` ends goes on with a
second body. -/
def closeTag (draft : Draft) (tag : OpenTag) (outer : Body) (enclosing : List (OpenTag × Body))
    (name : String) : Reading Draft := do
  endBlock
  match tag, decide (name = "else") with
  | .thenBody line condition, true =>
    enter ⟨outer, enclosing⟩ (.elseBody line condition draft.body.node)
  | _, _ => return ⟨outer.push (tag.node draft.body.node), enclosing⟩

/-- Reads a block tag, from behind its opener on; it may be the one that the reading stops at. -/
def readBlock (draft : Draft) (dialect : Dialect) (bound : Bound) : Reading (Draft ⊕ Node) := do
  let token ← current
  match token.kind with
  | .name name =>
    match draft.enclosing with
    -- outside all tags the bound decides, within one only the names that end it
    | [] =>
      if bound.stopsAt token then
        if bound.takesName then (fun _ => .inr draft.body.node) <$> next
        else return .inr draft.body.node
      else do
        let _ ← next
        Sum.inl <$> draft.openTag dialect token.line name
    | (tag, outer) :: enclosing => do
      let _ ← next
      if tag.ends.contains name then Sum.inl <$> draft.closeTag tag outer enclosing name
      else Sum.inl <$> draft.openTag dialect token.line name
  | _ => throw (.onLine .namelessTag token.line)

/-- Reads one construct. The result is a longer draft, or the node of the body if it ends here. -/
def step (draft : Draft) (dialect : Dialect) (bound : Bound) : Reading (Draft ⊕ Node) := fun s =>
  match s.current.kind with
  | .text value => (next >>= fun token => return .inl (draft.push (.text token.line value))) s
  | .opening .output => (next >>= fun token => Sum.inl <$> draft.readOutput token.line) s
  | .opening .block => (next >>= fun _ => draft.readBlock dialect bound) s
  | .eof =>
    -- the end is only right where no name was to stop the reading and no tag is open
    if draft.enclosing.isEmpty ∧ bound = .atEnd then .ok (.inr draft.body.node) s
    else .error (.onLine .endOfTemplate s.current.line) s
  | found => .error (.onLine (.strayToken found) s.current.line) s

/-! ## Constructs take tokens -/

theorem forward_endBlock : Forward endBlock := (Forward.expect _).map _

theorem forward_readParameters (directive : Directive) (name : Token) :
    Forward (directive.readParameters name) :=
  (Forward.ofExcept _).bind fun _ =>
    (Forward.collect .expression .expression).bind fun _ =>
      forward_endBlock.bind fun _ => .ofExcept _

variable (draft : Draft) (dialect : Dialect) (bound : Bound)

theorem forward_enter (tag : OpenTag) : Forward (draft.enter tag) :=
  Forward.current.bind fun _ => .pure _

theorem forward_readOutput (line : Nat) : Forward (draft.readOutput line) :=
  Forward.expression.bind fun _ => (Forward.expect _).bind fun _ => .pure _

theorem forward_openChoice (line : Nat) : Forward (draft.openChoice line) :=
  Forward.expression.bind fun _ => forward_endBlock.bind fun _ => forward_enter _ _

theorem forward_openLoop (line : Nat) : Forward (draft.openLoop line) :=
  Forward.expectName.bind fun _ => (Forward.expectKeyword _).bind fun _ =>
    Forward.expression.bind fun _ => forward_endBlock.bind fun _ => forward_enter _ _

theorem forward_openDefinition (line : Nat) : Forward (draft.openDefinition line) :=
  Forward.expectName.bind fun _ => (Forward.expect _).bind fun _ =>
    (Forward.collect .expectName ((Forward.expect _).bind fun _ => .expectName)).bind fun _ =>
      (Forward.expect _).bind fun _ => forward_endBlock.bind fun _ => forward_enter _ _

theorem forward_openDirective (name : Token) (directive : Directive) :
    Forward (draft.openDirective name directive) :=
  ((forward_readParameters directive name).orLine name.line).bind fun _ =>
    .ite (forward_enter _ _) (.pure _)

theorem forward_openTag (line : Nat) (name : String) :
    Forward (draft.openTag dialect line name) := by
  refine .ite (forward_openChoice _ _) (.ite (forward_openLoop _ _)
    (.ite (forward_openDefinition _ _) ?_))
  split
  · exact forward_openDirective _ _ _
  · exact .throw _

theorem forward_closeTag (tag : OpenTag) (outer : Body) (enclosing : List (OpenTag × Body))
    (name : String) : Forward (draft.closeTag tag outer enclosing name) := by
  refine forward_endBlock.bind fun _ => ?_
  split
  · exact forward_enter _ _
  · exact .pure _

theorem forward_readBlock : Forward (draft.readBlock dialect bound) := by
  refine Forward.current.bind fun token => ?_
  split
  · split
    · refine .ite ?_ ?_
      · exact .ite (Forward.next.map _) (.pure _)
      · exact Forward.next.bind fun _ => (forward_openTag _ _ _ _).map _
    · exact Forward.next.bind fun _ =>
        .ite ((forward_closeTag _ _ _ _ _).map _) ((forward_openTag _ _ _ _).map _)
  · exact .throw _

/-- A construct that does not end the body takes at least one token. -/
theorem length_lt_of_step {draft' : Draft} {s s' : TokenStream}
    (h : draft.step dialect bound s = .ok (.inl draft') s') :
    s'.ahead.length < s.ahead.length := by
  unfold step at h
  split at h
  · next hk => exact length_lt_of_next_bind (fun _ => .pure _) (by simp [hk]) h
  · next hk =>
    exact length_lt_of_next_bind (fun _ => (forward_readOutput _ _).map _) (by simp [hk]) h
  · next hk =>
    exact length_lt_of_next_bind (fun _ => forward_readBlock _ _ _) (by simp [hk]) h
  · split at h <;> cases h
  · cases h

/-- Reads constructs until the body ends. -/
def read (draft : Draft) (dialect : Dialect) (bound : Bound) (s : TokenStream) :
    EStateM.Result Report TokenStream Node :=
  match _step : draft.step dialect bound s with
  | .error report s' => .error report s'
  | .ok (.inr node) s' => .ok node s'
  | .ok (.inl draft') s' => draft'.read dialect bound s'
termination_by s.ahead.length
decreasing_by exact length_lt_of_step _ _ _ _step

end Draft

/-! ## Bodies, directives and templates -/

namespace Dialect

/-- Reads a body up to where the reading stops. -/
def readBody (dialect : Dialect) (bound : Bound) : Reading Node := do
  let token ← current
  Draft.read ⟨⟨token.line, []⟩, []⟩ dialect bound

/-- Reads a directive, from behind the name of its tag on, which is this token. -/
def readDirective (dialect : Dialect) (directive : Directive) (name : Token) : Reading Node := do
  let parameters ← directive.readParameters name
  if directive.hasBody then
    let body ← dialect.readBody (.atTag [directive.endTag] true)
    endBlock
    return directive.node name.line parameters (some body)
  else
    return directive.node name.line parameters none

/-- Reads the source of a template. Reports are about the file. -/
def readTemplate (dialect : Dialect) (file source : String) : Except Report Template :=
  match tokenize source with
  | .error report => .error (report.orFile file)
  | .ok tokens =>
    match dialect.readBody .atEnd (.ofList tokens) with
    | .ok body _ => .ok ⟨file, body⟩
    | .error report _ => .error (report.orFile file)

end Dialect

end SheetMarkup
