import SheetMarkup.Text.Quoted

/-!
# Expressions

The expressions of a template: literals, names, arrays, attribute and index access, and
comparisons. Lists and hashes are one kind of expression, whose entries have keys or not. `display`
shows an expression in one line.
-/

namespace SheetMarkup

/-- The two comparisons. -/
inductive Comparison where
  | equal
  | unequal
deriving DecidableEq, Repr

mutual

/-- An expression. A real number is kept as it is written. -/
inductive Expr where
  | string (value : String)
  | integer (value : Int64)
  | real (written : String)
  | bool (value : Bool)
  | null
  | name (name : String)
  | array (entries : List Entry)
  | attribute (object : Expr) (name : String)
  | index (object index : Expr)
  | compare (comparison : Comparison) (left right : Expr)

/-- An entry of an array: a list has items and a hash has pairs. -/
inductive Entry where
  | item (value : Expr)
  | pair (key value : Expr)

end

deriving instance BEq for Expr, Entry
deriving instance Repr for Expr, Entry

instance : Inhabited Expr := ⟨.null⟩

namespace Comparison

/-- A comparison between its operands. -/
def spelling : Comparison → List Char
  | equal => [' ', '=', '=', ' ']
  | unequal => [' ', '!', '=', ' ']

end Comparison

namespace Entry

/-- Whether the entry has a key. -/
def isPair : Entry → Bool
  | item _ => false
  | pair _ _ => true

end Entry

namespace Expr

/-- Whether the expression is an array literal, a list or a hash. -/
def isArray : Expr → Bool
  | array _ => true
  | _ => false

/-- The list of these expressions. -/
def list (items : List Expr) : Expr := array (items.map .item)

/-- The hash of these pairs. -/
def hash (pairs : List (Expr × Expr)) : Expr :=
  array (pairs.map fun (key, value) => .pair key value)

/-- Whether entries are shown as a hash: the first of them has a key. -/
def showsHash : List Entry → Bool
  | [] => false
  | entry :: _ => entry.isPair

end Expr

/-! ## Display -/

mutual

/-- The characters of an expression in one line. -/
def Expr.spelling : Expr → List Char
  | .string value => Text.quoted value.toList
  | .integer value => Text.signedDecimal value.toInt
  | .real written => written.toList
  | .bool true => "true".toList
  | .bool false => "false".toList
  | .null => "null".toList
  | .name name => name.toList
  | .array entries =>
    if Expr.showsHash entries then '{' :: Entry.spellings entries ++ ['}']
    else '[' :: Entry.spellings entries ++ [']']
  | .attribute object name => object.spelling ++ '.' :: name.toList
  | .index object index => object.spelling ++ '[' :: index.spelling ++ [']']
  | .compare comparison left right =>
    '(' :: left.spelling ++ comparison.spelling ++ right.spelling ++ [')']

/-- The characters of an entry. -/
def Entry.spelling : Entry → List Char
  | .item value => value.spelling
  | .pair key value => key.spelling ++ [':', ' '] ++ value.spelling

/-- The characters of entries with commas between them. -/
def Entry.spellings : List Entry → List Char
  | [] => []
  | [entry] => entry.spelling
  | entry :: more => entry.spelling ++ [',', ' '] ++ Entry.spellings more

end

/-- An expression in one line. -/
def Expr.display (e : Expr) : String := String.ofList e.spelling

end SheetMarkup
