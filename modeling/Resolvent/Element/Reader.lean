import Resolvent.Element.Form
import Resolvent.Failure
import Resolvent.Token.Lexer
import Resolvent.Ty.Parser

/-!
# Reading elements

Token trees become forms. Among siblings, a tag takes the next ordinary one, and a declaration takes
every sibling up to the next declaration or naked marker. Words and lists that are type notation
become type literals.
-/

namespace Resolvent

namespace Form

/-- Symbols that name types. -/
def isTypeWord (s : String) : Bool :=
  (match s.toList with
    | c :: _ => c == '\'' || c == '@' || c == '~'
    | [] => false) || s.toList.contains '|' || (Kind.ofName? (Param.stem s)).isSome

/-- First symbols of parenthesized type notation. -/
def isTypeHead (s : String) : Bool :=
  let stem := Param.stem s
  stem.toList.head? == some '\'' || ["obj", "bits", "enum", "form", "func", "alt"].contains stem

/-- Reads type notation from the source. -/
def readType (text : String) (span : Span) : Except Failure Ty :=
  (Ty.parse text).mapError fun e => .read (.badType e) span

mutual

/-- Reads a tree as a value: scalars, type words, lists and dicts. -/
def readLiteral : TokenTree → Except Failure Val
  | .leaf (.int n) _ => .ok (.int n)
  | .leaf (.real x) _ => .ok (.real x)
  | .leaf (.str s) _ => .ok (.str s)
  | .leaf (.bool b) _ => .ok (.bool b)
  | .leaf .null _ => .ok .null
  | .leaf (.symbol s) span =>
    if isTypeWord s then do return .typ (← readType s span) else .error (.read .noLiteral span)
  | .group .square items _ => do return .list (← readLiterals items)
  | .group .curly items _ => do return .dict (← readEntries items)
  | t => .error (.read .noLiteral t.span)

def readLiterals : List TokenTree → Except Failure (List Val)
  | [] => .ok []
  | t :: ts => do
    let v ← readLiteral t
    let vs ← readLiterals ts
    return v :: vs

/-- Reads the entries of a dict. A word directly after the colon has been lexed as a tag. -/
def readEntries : List TokenTree → Except Failure (List (String × Val))
  | [] => .ok []
  | keyTree :: rest => do
    let key ← match keyTree with
      | .leaf (.symbol s) _ => pure s
      | .leaf (.str s) _ => pure s
      | t => throw (.read .noKey t.span)
    match rest with
    | .leaf .colon _ :: t :: rest =>
      let v ← readLiteral t
      let vs ← readEntries rest
      return (key, v) :: vs
    | [.leaf .colon span] => throw (.read .missingValue span)
    | .leaf (.tag word) span :: rest =>
      let v ← match word with
        | "true" => pure (Val.bool true)
        | "false" => pure (Val.bool false)
        | "null" => pure Val.null
        | _ => throw (.read .noLiteral span)
      let vs ← readEntries rest
      return (key, v) :: vs
    | _ => throw (.read .noColon keyTree.span)

end

/-- A sibling before tags and declarations have taken theirs. -/
inductive Sibling where
  | tag (name : String) (span : Span)
  | decl (name : String) (span : Span)
  | naked (span : Span)
  | ordinary (f : Form)

/-- The span of the last sibling that a form is made of. -/
def lastSpan : Form → Span
  | tag _ (some f) _ => f.span
  | f => f.span

/-- Siblings taken together from the right: those that a declaration further left would take, with a
flag for those that a tag would take, and those that are settled. -/
structure Grouping where
  loose : List (Form × Bool) := []
  settled : List Form := []

namespace Grouping

/-- Takes one more sibling on the left. -/
def add (s : Sibling) (g : Grouping) : Grouping :=
  match s with
  | .ordinary f => { g with loose := (f, true) :: g.loose }
  | .tag n span =>
    match g.loose with
    | (f, true) :: rest => { g with loose := (.tag n (some f) (span.merge f.span), false) :: rest }
    | rest => { g with loose := (.tag n none span, false) :: rest }
  | .decl n span =>
    let args := g.loose.map (·.1)
    let whole := match args.getLast? with
      | some last => span.merge last.lastSpan
      | none => span
    { loose := [], settled := .decl n args whole :: g.settled }
  | .naked span => { loose := [], settled := .decl "" [] span :: (g.loose.map (·.1) ++ g.settled) }

def finish (g : Grouping) : List Form := g.loose.map (·.1) ++ g.settled

end Grouping

/-- Lets tags and declarations take the siblings after them. -/
def group (siblings : List Sibling) : List Form := (siblings.foldr Grouping.add {}).finish

mutual

/-- Reads a tree on its own. -/
def readSibling (source : List Char) : TokenTree → Except Failure Sibling
  | .leaf (.tag n) span => .ok (.tag n span)
  | .leaf (.decl n) span => .ok (.decl n span)
  | .leaf .plus span => .ok (.naked span)
  | .leaf (.symbol s) span =>
    if isTypeWord s then do return .ordinary (.literal (.typ (← readType s span)) span)
    else .ok (.ordinary (.name s none span))
  | .leaf (.path s) span => .ok (.ordinary (.name s none span))
  | .group .round children span =>
    if (children.head?.bind TokenTree.symbol?).any isTypeHead then do
      let t ← readType (String.ofList (span.slice source)) span
      return .ordinary (.literal (.typ t) span)
    else do
      let siblings ← readSiblings source children
      return .ordinary (.expr (group siblings) span)
  | t => do return .ordinary (.literal (← readLiteral t) t.span)

def readSiblings (source : List Char) : List TokenTree → Except Failure (List Sibling)
  | [] => .ok []
  | t :: ts => do
    let s ← readSibling source t
    let ss ← readSiblings source ts
    return s :: ss

end

/-- The trees of a source text. -/
def readTrees (source : List Char) : Except Failure (List TokenTree) := do
  let (tokens, bad) := Token.lex source
  if let span :: _ := bad then throw (.read .unexpectedCharacter span)
  let (trees, errors) := TokenTree.ofTokens tokens
  if let e :: _ := errors then throw (.read (.nesting e) e.span)
  return trees

/-- Reads a source text as forms, one for each top-level expression. -/
def read (source : String) : Except Failure (List Form) := do
  let cs := source.toList
  return group (← readSiblings cs (← readTrees cs))

/-! ## What a failure leaves

Elements are stored as soon as they are complete. So a tree that cannot be read leaves the elements
of what stands in front of it, other than a tag or a declaration that was to take it. -/

namespace Sibling

def isTag : Sibling → Bool
  | tag _ _ => true
  | _ => false

def isDecl : Sibling → Bool
  | decl _ _ => true
  | _ => false

/-- Where the arguments of a declaration end. -/
def isMarker : Sibling → Bool
  | decl _ _ | naked _ => true
  | _ => false

end Sibling

/-- The forms that are complete when the next sibling fails. The siblings so far are given with the
latest first. -/
def complete (siblings : List Sibling) : List Form :=
  let late := siblings.takeWhile fun s => !s.isMarker
  let early := siblings.dropWhile fun s => !s.isMarker
  group (if early.head?.any Sibling.isDecl then early.tail else early).reverse ++
    group (if late.head?.any Sibling.isTag then late.tail else late).reverse

mutual

/-- The forms that are complete when a tree fails, of those inside of it. -/
def leavings (source : List Char) : TokenTree → List Form
  | .group .round children _ =>
    if (children.head?.bind TokenTree.symbol?).any isTypeHead then []
      else leavingsAfter source [] children
  | _ => []

/-- The forms that are complete when the first of some trees fails that does. The siblings before
the trees are given with the latest first. -/
def leavingsAfter (source : List Char) (siblings : List Sibling) : List TokenTree → List Form
  | [] => []
  | t :: ts =>
    match readSibling source t with
    | .ok s => leavingsAfter source (s :: siblings) ts
    | .error _ => complete siblings ++ leavings source t

end

/-- The forms that a source text leaves if reading it fails. -/
def leftover (source : String) : List Form :=
  let cs := source.toList
  match readTrees cs with
  | .ok trees => leavingsAfter cs [] trees
  | .error _ => []

end Form

end Resolvent
