import SheetMarkup.Cause
import SheetMarkup.Lexeme.Basic
import SheetMarkup.Source.Cut

/-!
# Tokens of a source

The texts and tags of a source become tokens. A text loses its leading blanks if the tag before it
ends with a minus sign, and its trailing ones if the tag behind it begins with one. After a block or
comment without a minus sign at its end it loses one line feed, with the carriage return before it.
Texts that are left empty, and comments, give no token. Every token has the line on which it starts
in the source, and the end of the source is a token of its own.
-/

namespace SheetMarkup

/-- What is taken off the beginning of a text. -/
inductive Trimming where
  | nothing
  | lineEnd
  | blanks
deriving DecidableEq, Repr

namespace Trimming

/-- What a text loses when it follows a tag. -/
def behind (tag : Tag) : Trimming :=
  if tag.closeDash then blanks else if tag.opener = .tag .output then nothing else lineEnd

/-- Splits a text into what is taken off its beginning and what is kept. -/
def split : Trimming → List Char → List Char × List Char
  | nothing, cs => ([], cs)
  | lineEnd, '\r' :: '\n' :: cs => (['\r', '\n'], cs)
  | lineEnd, '\n' :: cs => (['\n'], cs)
  | lineEnd, cs => ([], cs)
  | blanks, cs => (cs.takeWhile Text.isBlank, cs.dropWhile Text.isBlank)

theorem split_append (trimming : Trimming) (cs : List Char) :
    (trimming.split cs).1 ++ (trimming.split cs).2 = cs := by
  unfold split
  split <;> simp [List.takeWhile_append_dropWhile]

end Trimming

/-- The token of a text that starts on this line, if there is one. -/
def textToken (line : Nat) (cs : List Char) : List Token :=
  if cs = [] then [] else [⟨.text (String.ofList cs), line⟩]

/-- The report about a fault in the interior of a tag that starts on this line. -/
def Lexeme.Fault.report (line : Nat) (interior : List Char) (fault : Lexeme.Fault) : Report :=
  let cause : Cause := match fault with
    | .refused reach => .refusedChar interior[reach.offset]? reach.expected
    | .operator _ => .unknownOperator
    | .surrogate _ => .surrogateCode
  .onLine cause (line + Text.lineFeeds (interior.take fault.offset))

/-- The tokens of a tag that starts on this line. -/
def Tag.tokens (line : Nat) (tag : Tag) : Except Report (List Token) :=
  match tag.opener with
  | .comment => .ok []
  | .tag form =>
    -- minus signs hold no line feeds, so the closer stands on the line where the interior ends
    match Lexeme.readAll tag.interior with
    | .error fault => .error (fault.report line tag.interior)
    | .ok (row, _) =>
      .ok (⟨.opening form, line⟩ :: Lexeme.tokens line row ++
        [⟨.closing form, line + Text.lineFeeds tag.interior⟩])

namespace Cut

/-- The tokens of a cut source that goes on on this line, with its first text trimmed as told. -/
def tokens (line : Nat) (trimming : Trimming) : Cut → Except Report (List Token)
  | .text t =>
    let (lost, kept) := trimming.split t
    .ok (textToken (line + Text.lineFeeds lost) kept ++ [⟨.eof, line + Text.lineFeeds t⟩])
  | .unclosed t opener _ => .error (.onLine (.unclosed opener) (line + Text.lineFeeds t))
  | .tag t found after => do
    let (lost, kept) := trimming.split t
    -- the lines go on by the whole text, and the token stands behind what is lost before it
    let kept := if found.openDash then Text.trimEnd kept else kept
    let start := line + Text.lineFeeds t
    let inside ← found.tokens start
    let more ← after.tokens (start + Text.lineFeeds found.spelling) (.behind found)
    return textToken (line + Text.lineFeeds lost) kept ++ inside ++ more

end Cut

/-- The tokens of a source. -/
def tokenize (source : String) : Except Report (List Token) :=
  (cut source.toList).tokens 1 .nothing

end SheetMarkup
