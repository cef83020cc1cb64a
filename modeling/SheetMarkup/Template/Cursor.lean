import SheetMarkup.Template.Reader

/-!
# Calls on a stored stream

Whoever reads a template holds all of its tokens and the index of the current one. What a reading
does with the tokens ahead moves the index on. Apart from readings, any number of tokens can be
skipped, up to the last one; this number and the index are machine words.
-/

namespace SheetMarkup

/-- The tokens of a template and the index of the current one. -/
structure Cursor where
  tokens : List Token
  index : Nat
deriving DecidableEq, Repr

/-- Tokens with an end behind them. If they lack one, it is on the line of the last token or on
line 1. -/
def Token.closed (tokens : List Token) : List Token :=
  match tokens.getLast? with
  | none => [⟨.eof, 1⟩]
  | some last => if last.kind = .eof then tokens else tokens ++ [⟨.eof, last.line⟩]

namespace Cursor

/-- The cursor at the first of some tokens, which get an end if they lack one. -/
def ofList (tokens : List Token) : Cursor := ⟨Token.closed tokens, 0⟩

/-- The tokens from the current one on. -/
def remaining (c : Cursor) : List Token := c.tokens.drop c.index

/-- What is to be read. -/
def stream (c : Cursor) : TokenStream := .ofList c.remaining

/-- Moves to where as many tokens remain as in a stream. -/
def moveTo (c : Cursor) (s : TokenStream) : Cursor :=
  { c with index := c.tokens.length - s.remaining.length }

/-- Reads from the current token on, and stands in the end where the reading has ended, in success
or in failure. -/
def perform {α : Type} (r : Reading α) : EStateM Report Cursor α := fun c =>
  match r c.stream with
  | .ok a s => .ok a (c.moveTo s)
  | .error report s => .error report (c.moveTo s)

/-- Skips as many tokens as counted, but not the last one. The sum of index and count is one of
machine words: without a check for overflow it wraps. -/
def skip (count : UInt64) : EStateM Report Cursor Unit := fun c =>
  .ok () { c with index := min (UInt64.ofNat c.index + count).toNat (c.tokens.length - 1) }

end Cursor

/-- What can be called on a stream. -/
inductive Call where
  | next
  | skip (count : UInt64)
  | expect (kind : Token.Kind)
  | expectName
  | expectKeyword (name : String)
  | expression
  | body (bound : Bound)

namespace Call

/-- What a call gives if it succeeds. -/
abbrev Value : Call → Type
  | next | expect _ | expectKeyword _ => Token
  | skip _ => Unit
  | expectName => String
  | expression => Expr
  | body _ => Node

/-- Does what is called for. -/
def run (dialect : Dialect) : (call : Call) → EStateM Report Cursor call.Value
  | next => Cursor.perform Reading.next
  | skip count => Cursor.skip count
  | expect kind => Cursor.perform (Reading.expect kind)
  | expectName => Cursor.perform Reading.expectName
  | expectKeyword name => Cursor.perform (Reading.expectKeyword name)
  | expression => Cursor.perform Reading.expression
  | body bound => Cursor.perform (dialect.readBody bound)

end Call

end SheetMarkup
