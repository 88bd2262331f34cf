import Resolvent.Span
import Resolvent.Token

/-!
# Token trees

Tokens are nested by their brackets. The reader goes through the tokens once with a stack of open
brackets. A closing bracket that does not fit is reported and spoils the innermost open bracket; a
spoiled bracket survives only if the very next token closes it, and otherwise is reported as
unclosed and spoils the one around it.
-/

namespace Resolvent

inductive TokenTree where
  | leaf (token : Token) (span : Span)
  | group (bracket : Bracket) (children : List TokenTree) (span : Span)

/-- Why tokens do not nest. -/
inductive NestingError where
  | unclosed (bracket : Bracket) (span : Span)
  | unexpectedClosing (span : Span)
  deriving DecidableEq, Repr

namespace NestingError

def reason : NestingError → String
  | unclosed b _ => s!"unclosed '{b.openChar}'"
  | unexpectedClosing _ => "unexpected closing delimiter"

def span : NestingError → Span
  | unclosed _ s => s
  | unexpectedClosing s => s

def message (e : NestingError) : String := s!"[{e.span.text}] {e.reason}"

end NestingError

namespace TokenTree

def span : TokenTree → Span
  | leaf _ s => s
  | group _ _ s => s

/-- The text of a symbol. -/
def symbol? : TokenTree → Option String
  | leaf (.symbol s) _ => some s
  | _ => none

/-- An open bracket with the trees read since, last first. -/
structure OpenGroup where
  bracket : Bracket
  span : Span
  children : List TokenTree

/-- What the reader knows between two tokens. Trees and errors are kept last first. -/
structure Reading where
  stack : List OpenGroup := []
  /-- The innermost open bracket has met an error and must close with the next token. -/
  spoiled : Bool := false
  trees : List TokenTree := []
  errors : List NestingError := []

namespace Reading

/-- Adds a finished tree to the innermost open bracket, or to the result. -/
def push (r : Reading) (t : TokenTree) : Reading :=
  match r.stack with
  | [] => { r with trees := t :: r.trees }
  | g :: gs => { r with stack := { g with children := t :: g.children } :: gs }

/-- Reports every open bracket, innermost first, until one that `stays`. -/
def unwind (stays : Bracket → Bool) (errors : List NestingError) :
    List OpenGroup → List OpenGroup × List NestingError
  | [] => ([], errors)
  | g :: gs => if stays g.bracket then (g :: gs, errors)
      else unwind stays (.unclosed g.bracket g.span :: errors) gs

/-- Settles spoiled brackets before the next token: only a bracket that the token closes stays open.
-/
def settle (r : Reading) (t : Token) : Reading :=
  if r.spoiled then
    let stays b := match t with
      | .closing b' => b == b'
      | _ => false
    let (stack, errors) := unwind stays r.errors r.stack
    { r with stack, errors, spoiled := false }
  else r

/-- Takes one token into account. -/
def step (r : Reading) : Token × Span → Reading
  | (t, span) =>
    let r := r.settle t
    match t with
    | .opening b => { r with stack := ⟨b, span, []⟩ :: r.stack }
    | .closing b =>
      match r.stack with
      | g :: gs =>
        if g.bracket = b then { r with stack := gs }.push
          (.group b g.children.reverse (g.span.merge span))
        else { r with errors := .unexpectedClosing span :: r.errors, spoiled := true }
      | [] => { r with errors := .unexpectedClosing span :: r.errors }
    | t => r.push (.leaf t span)

/-- The trees and errors once all tokens are read: whatever is open stays unclosed. -/
def finish (r : Reading) : List TokenTree × List NestingError :=
  (r.trees.reverse, (unwind (fun _ => false) r.errors r.stack).2.reverse)

end Reading

/-- Nests tokens by their brackets. -/
def ofTokens (tokens : List (Token × Span)) : List TokenTree × List NestingError :=
  (tokens.foldl Reading.step {}).finish

end TokenTree

end Resolvent
