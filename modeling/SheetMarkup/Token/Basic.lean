import SheetMarkup.Text.Quoted

/-!
# Tokens

A template is read as a list of tokens: runs of text, the delimiters of tags, and between the
delimiters names, literals and symbols. Each token knows the line it starts on. `Token.Kind.display`
is how a token is shown in a report.
-/

namespace SheetMarkup

/-- The two forms of tag that leave tokens: `{{ … }}` prints a value and `{% … %}` bounds a
block. -/
inductive TagForm where
  | output
  | block
deriving DecidableEq, Repr

/-- The punctuation inside tags. -/
inductive Symbol where
  | dot
  | comma
  | colon
  | openBracket
  | closeBracket
  | openBrace
  | closeBrace
  | openParen
  | closeParen
  | equal
  | unequal
deriving DecidableEq, Repr

/-- What a token is. A real number keeps the text it was written with. -/
inductive Token.Kind where
  | text (value : String)
  | opening (form : TagForm)
  | closing (form : TagForm)
  | name (value : String)
  | string (value : String)
  | integer (value : Int64)
  | real (written : String)
  | symbol (mark : Symbol)
  | eof
deriving DecidableEq, Repr

/-- A token and the line it starts on. -/
structure Token where
  kind : Token.Kind
  line : Nat
deriving DecidableEq, Repr

namespace TagForm

/-- What opens a tag of this form. -/
def opener : TagForm → String
  | output => "\x7b\x7b"
  | block => "\x7b%"

/-- What closes a tag of this form. -/
def closer : TagForm → String
  | output => "\x7d\x7d"
  | block => "%\x7d"

/-- What a tag of this form is called in reports. -/
def name : TagForm → String
  | output => "variable"
  | block => "block"

end TagForm

namespace Symbol

/-- How a symbol is written. -/
def spelling : Symbol → String
  | dot => "."
  | comma => ","
  | colon => ":"
  | openBracket => "["
  | closeBracket => "]"
  | openBrace => "\x7b"
  | closeBrace => "\x7d"
  | openParen => "("
  | closeParen => ")"
  | equal => "=="
  | unequal => "!="

/-- All symbols, by the order of their spellings. -/
def all : List Symbol :=
  [unequal, openParen, closeParen, comma, dot, colon, equal, openBracket, closeBracket, openBrace,
    closeBrace]

/-- The symbol that is written with this one character. -/
def ofChar? : Char → Option Symbol
  | '.' => some dot
  | ',' => some comma
  | ':' => some colon
  | '[' => some openBracket
  | ']' => some closeBracket
  | '{' => some openBrace
  | '}' => some closeBrace
  | '(' => some openParen
  | ')' => some closeParen
  | _ => none

end Symbol

namespace Token

/-- How a token is shown: texts and strings in quotes, all else as it is written. -/
def Kind.display : Kind → String
  | .text value => "text " ++ Text.quote value
  | .opening form => form.opener
  | .closing form => form.closer
  | .name value => value
  | .string value => Text.quote value
  | .integer value => String.ofList (Text.signedDecimal value.toInt)
  | .real written => written
  | .symbol mark => mark.spelling
  | .eof => "end of template"

/-- Whether the token is this name. -/
def isName (token : Token) (name : String) : Bool := token.kind == .name name

end Token

end SheetMarkup
