import Resolvent.Val.Printer

/-!
# Forms

A form is an element with everything below it, as a tree. Reading a source gives forms; a store
keeps their elements, and the form of an element can be read off the store again.
-/

namespace Resolvent

inductive Form where
  | literal (v : Val) (span : Span)
  | name (name : String) (definition : Option Definition) (span : Span)
  | tag (name : String) (el : Option Form) (span : Span)
  | decl (name : String) (args : List Form) (span : Span)
  | expr (items : List Form) (span : Span)
  | call (callable : Callable) (groups : List (List Form)) (sig : Option Ty) (span : Span)

namespace Form

def span : Form → Span
  | literal _ s | name _ _ s | tag _ _ s | decl _ _ s | expr _ s | call _ _ _ s => s

mutual

/-- The number of elements of a form. -/
def size : Form → Nat
  | literal _ _ | name _ _ _ | tag _ none _ => 1
  | tag _ (some f) _ => 1 + f.size
  | decl _ args _ => 1 + sizeAll args
  | expr items _ => 1 + sizeAll items
  | call _ groups _ _ => 1 + sizeGroups groups

def sizeAll : List Form → Nat
  | [] => 0
  | f :: fs => f.size + sizeAll fs

def sizeGroups : List (List Form) → Nat
  | [] => 0
  | fs :: gs => sizeAll fs + sizeGroups gs

end

mutual

/-- The form as source text. -/
def text : Form → String
  | literal v _ => v.text
  | name n _ _ => n
  | tag n none _ => ":" ++ n
  | tag n (some f) _ => ":" ++ n ++ " " ++ f.text
  | decl n args _ => "+" ++ n ++ afterBlanks args
  | expr items _ => "(" ++ betweenBlanks items ++ ")"
  | call c groups _ _ => "(" ++ c.text ++ groupsAfterBlanks groups ++ ")"

/-- Forms with a blank before each. -/
def afterBlanks : List Form → String
  | [] => ""
  | f :: fs => " " ++ f.text ++ afterBlanks fs

/-- Forms with a blank between them. -/
def betweenBlanks : List Form → String
  | [] => ""
  | f :: fs => f.text ++ afterBlanks fs

def groupsAfterBlanks : List (List Form) → String
  | [] => ""
  | fs :: gs => afterBlanks fs ++ groupsAfterBlanks gs

end

end Form

end Resolvent
