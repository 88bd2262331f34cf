import Resolvent.Real.Text
import Resolvent.Text.Quoted
import Resolvent.Val.Basic

/-!
# Printing values

Values are written as source: text in quotes, containers in brackets with blanks between the items.
Dict keys are written bare. A function is written by its name, or by its signature if it has none.
-/

namespace Resolvent

/-- The name of a callable, or its signature if it has no name. -/
def Callable.text (c : Callable) : String := if c.name = "" then c.sig.text else c.name

namespace Val

mutual

def text : Val → String
  | null => "null"
  | bool b => if b then "true" else "false"
  | int n => Text.decimal n.toInt
  | real x => Real.text x
  | str s => Text.quote s
  | list items => "[" ++ String.intercalate " " (texts items) ++ "]"
  | dict entries => "\x7b" ++ String.intercalate " " (entryTexts entries) ++ "\x7d"
  | typ t => t.text
  | fn f => f.text

def texts : List Val → List String
  | [] => []
  | v :: vs => v.text :: texts vs

def entryTexts : List (String × Val) → List String
  | [] => []
  | (k, v) :: vs => (k ++ ":" ++ v.text) :: entryTexts vs

end

/-- The text of a value inside other text: strings lose their quotes. -/
def plainText : Val → String
  | str s => s
  | v => v.text

end Val

end Resolvent
