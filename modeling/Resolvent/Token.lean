/-!
# Tokens

The words of the expression language: brackets, punctuation, literals and names. A name may start
with a sigil; such names are answered by particular scopes only.
-/

namespace Resolvent

/-- The three pairs of brackets. -/
inductive Bracket where
  | round
  | square
  | curly
  deriving DecidableEq, Repr

namespace Bracket

def openChar : Bracket → Char
  | round => '('
  | square => '['
  | curly => '\x7b'

def closeChar : Bracket → Char
  | round => ')'
  | square => ']'
  | curly => '\x7d'

end Bracket

inductive Token where
  | opening (bracket : Bracket)
  | closing (bracket : Bracket)
  | colon
  /-- The naked declaration marker: a plus sign on its own. -/
  | plus
  | real (x : Float)
  | int (n : Int64)
  | str (s : String)
  | bool (b : Bool)
  | null
  /-- A name after a colon. -/
  | tag (name : String)
  /-- A name after a plus sign. -/
  | decl (name : String)
  /-- Names with a dot before each. -/
  | path (text : String)
  /-- Symbols, operator names, type words and marked names. -/
  | symbol (text : String)

/-- The first character of a name, where it tells which scopes answer the name. -/
inductive Sigil where
  /-- A parameter by name or position, after a dollar sign. -/
  | param
  /-- A path from the nearest data, after a dot. -/
  | relPath
  /-- A path from the root data, after a slash. -/
  | absPath
  /-- A named type, after a tilde. -/
  | schema
  deriving DecidableEq, Repr

namespace Sigil

def all : List Sigil := [param, relPath, absPath, schema]

/-- The sigil of a name, if it starts with one. -/
def of? (name : String) : Option Sigil :=
  match name.toList with
  | '$' :: _ => some param
  | '.' :: _ => some relPath
  | '/' :: _ => some absPath
  | '~' :: _ => some schema
  | _ => none

def text : Sigil → String
  | param => "parameter"
  | relPath => "relative path"
  | absPath => "absolute path"
  | schema => "schema"

end Sigil

end Resolvent
