import Resolvent.Text.Classes
import Resolvent.Ty.Equality
import Resolvent.Ty.Error

/-!
# Reading types

The reader takes a type from the front of a text and returns what is left. A word is a run of
characters up to a blank, a parenthesis, a quote or a bar. Only parenthesized lists and elements
after a bar nest, and each of them takes at least one character, so the length of the text bounds
the nesting.
-/

namespace Resolvent.Ty

/-- Reading from the front of a text. -/
abbrev Reader (α : Type) := List Char → Except TyError (α × List Char)

def isDelimiter (c : Char) : Bool := Text.isBlank c || c == '(' || c == ')' || c == '"' || c == '|'

def skipBlanks (cs : List Char) : List Char := cs.dropWhile Text.isBlank

/-- The leading word and what follows it. -/
def word (cs : List Char) : List Char × List Char := cs.span (!isDelimiter ·)

/-- Splits a trailing question mark off a word. -/
def splitOpt (cs : List Char) : List Char × Bool :=
  if cs.getLast? = some '?' then (cs.dropLast, true) else (cs, false)

section

variable (src : String)

/-- Refuses the text for a reason. -/
def refuse {α : Type} (reason : TyReason) : Except TyError α := .error (.invalid src reason)

/-- The number of a variable. -/
def varNumber (digits : List Char) : Except TyError Nat :=
  match Text.natural32? digits with
  | some (n + 1) => .ok (n + 1)
  | _ => refuse src .noPositiveNumber

/-- Repeats a reader up to a closing parenthesis or the end, at most `fuel` times. -/
def readMany (one : Reader Ty) : (fuel : Nat) → Reader (List Ty)
  | 0, cs => .ok ([], cs)
  | fuel + 1, cs =>
    match skipBlanks cs with
    | [] => .ok ([], [])
    | ')' :: r => .ok ([], ')' :: r)
    | c :: r => do
      let (t, rest) ← one (c :: r)
      let (ts, rest) ← readMany one fuel rest
      return (t :: ts, rest)

/-- The type that a word without optional mark stands for, with its element after a bar. -/
def readBare (one : Reader Ty) (name : List Char) : Reader Ty := fun rest =>
  match name with
  | '\'' :: digits => do
    let id ← varNumber src digits
    return (var id [], rest)
  | '@' :: target =>
    match Text.natural32? target with
    | some 0 => refuse src .zeroDistance
    | some dist => .ok (self dist, rest)
    | none => if target.isEmpty then refuse src .missingReference
        else .ok (ref (String.ofList target), rest)
  | '~' :: target => if target.isEmpty then refuse src .missingSchema
      else .ok (sch (String.ofList target), rest)
  | name =>
    match Kind.ofName? (String.ofList name) with
    | none => refuse src .unknownName
    | some k =>
      if k = .alt then refuse src .missingCandidates
      else match rest with
        | '|' :: rest =>
          if k.isElemCont then do
            let (elem, rest) ← one rest
            let t ← cont k elem
            return (t, rest)
          else refuse src .noElementType
        | rest => .ok (plain k, rest)

/-- A type given by a word. -/
def readWord (one : Reader Ty) : Reader Ty := fun cs => do
  let (w, rest) := word cs
  if w.isEmpty then refuse src .unexpectedCharacter
  else
    let (name, optional) := splitOpt w
    let (t, rest) ← readBare src one name rest
    return (t.optIf optional, rest)

/-- The members of a composite type: parameters and constants so far, and the names that wait for a
type. -/
structure Members where
  params : List Param := []
  consts : List (String × Int64) := []
  waiting : List String := []

/-- Reads the members of a composite type up to a closing parenthesis or the end. Names in a row
take the next type together. -/
def readMembers (one : Reader Ty) (constants : Bool) (acc : Members) : (fuel : Nat) → Reader Members
  | 0, cs => .ok (acc, cs)
  | fuel + 1, cs =>
    match skipBlanks cs with
    | [] => .ok (acc, [])
    | ')' :: r => .ok (acc, ')' :: r)
    | '+' :: r =>
      let (name, rest) := word r
      if name.isEmpty then refuse src .missingParameterName
      else if constants then
        let (digits, rest) := word (skipBlanks rest)
        match Text.integer64? digits with
        | some v => readMembers one constants { acc with consts := acc.consts ++
            [(String.ofList name, v)] } fuel rest
        | none => refuse src .noConstantValue
      else readMembers one constants { acc with waiting := acc.waiting ++
        [String.ofList name] } fuel rest
    | c :: r =>
      if constants then refuse src .noConstant
      else do
        let (t, rest) ← one (c :: r)
        let new := if acc.waiting.isEmpty then [("", t)] else acc.waiting.map fun n => (n, t)
        readMembers one constants { acc with params := acc.params ++ new, waiting := [] } fuel rest

/-- The name of a composite type between quotes, empty if there is none. -/
def readName : Reader String := fun cs =>
  match skipBlanks cs with
  | '"' :: r =>
    match r.span (· != '"') with
    | (name, _ :: rest) => .ok (String.ofList name, rest)
    | (_, []) => refuse src .unclosedName
  | cs => .ok ("", cs)

/-- The inside of a composite type after its kind. -/
def readComposite (one : Reader Ty) (k : Kind) : Reader Ty := fun cs => do
  let (name, rest) ← readName src cs
  let constants := k = .flags ∨ k = .enum
  let (members, rest) ← readMembers src one constants {} (rest.length + 1) rest
  if members.waiting.isEmpty then
    return (detailed k name members.params members.consts, rest)
  else refuse src .parameterWithoutType

/-- The type that a parenthesized list stands for, by the head without optional mark and the rest of
the list. -/
def readTail (one : Reader Ty) (name : List Char) : Reader Ty := fun rest =>
  match name with
  | '\'' :: digits => do
    let id ← varNumber src digits
    let (constraints, rest) ← readMany one (rest.length + 1) rest
    return (var id constraints, rest)
  | name =>
    match Kind.ofName? (String.ofList name) with
    | none => refuse src .unknownComposite
    | some k =>
      if k = .alt then do
        let (cands, rest) ← readMany one (rest.length + 1) rest
        return (alt cands, rest)
      else if k.isComposite then readComposite src one k rest
      else refuse src .unknownComposite

/-- A parenthesized type, after its opening parenthesis. -/
def readList (one : Reader Ty) : Reader Ty := fun cs => do
  let (head, rest) := word (skipBlanks cs)
  let (name, optional) := splitOpt head
  let (t, rest) ← readTail src one name rest
  match skipBlanks rest with
  | ')' :: rest => return (t.optIf optional, rest)
  | _ => refuse src .unclosedParenthesis

/-- A type at the front of a text; `fuel` bounds the nesting. -/
def readType : (fuel : Nat) → Reader Ty
  | 0, _ => refuse src .missingType
  | fuel + 1, cs =>
    match skipBlanks cs with
    | [] => refuse src .missingType
    | '(' :: r => readList src (readType fuel) r
    | cs => readWord src (readType fuel) cs

end

/-- Reads a text as one type. -/
def parse (src : String) : Except TyError Ty := do
  let cs := src.toList
  let (t, rest) ← readType src (cs.length + 1) cs
  if (skipBlanks rest).isEmpty then return t else refuse src .trailingInput

end Resolvent.Ty
