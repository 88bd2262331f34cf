import Resolvent.Real.Text
import Resolvent.Span
import Resolvent.Text.Quoted
import Resolvent.Token

/-!
# Lexing

At each place of the source the longest lexeme is taken; among lexemes of one length the class
listed first wins, so that numbers and keywords come before symbols. Blanks and comments are
skipped. A character that starts no lexeme is bad on its own, except that a quote whose string never
closes is bad as far as the string reaches. A lexeme whose text has no value, such as a number out
of range, is bad as a whole. Adjacent bad stretches are reported as one.
-/

namespace Resolvent

/-- The classes of lexemes, each with the pattern of its texts. -/
inductive LexClass where
  | blank
  | comment
  | opening (bracket : Bracket)
  | closing (bracket : Bracket)
  | colon
  | plus
  | real
  | int
  | str
  | keyword (word : String) (token : Token)
  | tag
  | decl
  | path
  | symbol

namespace LexClass

/-- The length of the leading run of characters in a class. -/
def run (p : Char → Bool) (cs : List Char) : Nat := (cs.takeWhile p).length

def isLetter (c : Char) : Bool := ('a' ≤ c && c ≤ 'z') || ('A' ≤ c && c ≤ 'Z')

def isBlank (c : Char) : Bool := c == ' ' || c == '\t' || c == '\r' || c == '\n'

/-- First characters of tag and declaration names. -/
def isNameHead (c : Char) : Bool := isLetter c || c == '_'

/-- First characters of path keys. -/
def isKeyHead (c : Char) : Bool := isNameHead c || Text.isDigit c

/-- Further characters of names and keys. -/
def isNameTail (c : Char) : Bool := isKeyHead c || c == '-' || c == '!' || c == '?'

/-- First characters of symbols. -/
def isSymbolHead (c : Char) : Bool := isNameHead c || "-*/<>=!&^~$@'".toList.contains c

/-- Further characters of symbols. -/
def isSymbolTail (c : Char) : Bool := isSymbolHead c || Text.isDigit c || "+|.?".toList.contains c

/-- Splits off a minus sign: its length and what follows it. -/
def minus : List Char → Nat × List Char
  | '-' :: r => (1, r)
  | r => (0, r)

/-- Digits with an optional minus sign. -/
def intLength (cs : List Char) : Nat :=
  let (sign, r) := minus cs
  let digits := run Text.isDigit r
  if digits = 0 then 0 else sign + digits

/-- An exponent mark with an optional sign and digits. -/
def exponentLength : List Char → Nat
  | c :: r =>
    if c = 'e' ∨ c = 'E' then
      let (sign, r) := match r with
        | '+' :: r => (1, r)
        | r => minus r
      let digits := run Text.isDigit r
      if digits = 0 then 0 else 1 + sign + digits
    else 0
  | [] => 0

/-- Digits on both sides of a point, with an optional minus sign and an optional exponent. -/
def realLength (cs : List Char) : Nat :=
  let (sign, r) := minus cs
  let whole := run Text.isDigit r
  match r.drop whole with
  | '.' :: r =>
    let places := run Text.isDigit r
    if whole = 0 ∨ places = 0 then 0 else sign + whole + 1 + places + exponentLength (r.drop places)
  | _ => 0

/-- How far a string reaches after its opening quote, and whether it is closed there. A backslash
takes the next character with it unless that is a line feed. -/
def strReach : List Char → Nat × Bool
  | [] => (0, false)
  | '"' :: _ => (1, true)
  | '\\' :: [] => (1, false)
  | '\\' :: c :: r =>
    if c = '\n' then (1, false)
    else
      let (n, closed) := strReach r
      (n + 2, closed)
  | _ :: r =>
    let (n, closed) := strReach r
    (n + 1, closed)

/-- A mark followed by a name. -/
def markedLength (mark : Char) : List Char → Nat
  | c :: h :: r => if c = mark ∧ isNameHead h then 2 + run isNameTail r else 0
  | _ => 0

/-- How far a path reaches inside a key. -/
def keysLength : List Char → Nat
  | '.' :: h :: r => if isKeyHead h then 2 + keysLength r else 0
  | c :: r => if isNameTail c then 1 + keysLength r else 0
  | [] => 0

/-- Keys with a dot before each. -/
def pathLength : List Char → Nat
  | '.' :: h :: r => if isKeyHead h then 2 + keysLength r else 0
  | _ => 0

/-- The length of the longest lexeme of the class at the start of a text, zero if there is none. -/
def length (k : LexClass) (cs : List Char) : Nat :=
  match k, cs with
  | blank, cs => run isBlank cs
  | comment, ';' :: r => 1 + run (· != '\n') r
  | opening b, c :: _ => if c = b.openChar then 1 else 0
  | closing b, c :: _ => if c = b.closeChar then 1 else 0
  | colon, ':' :: _ => 1
  | plus, '+' :: _ => 1
  | real, cs => realLength cs
  | int, cs => intLength cs
  | str, '"' :: r =>
    let (n, closed) := strReach r
    if closed then 1 + n else 0
  | keyword word _, cs => if word.toList.isPrefixOf cs then word.toList.length else 0
  | tag, cs => markedLength ':' cs
  | decl, cs => markedLength '+' cs
  | path, cs => pathLength cs
  | symbol, c :: r => if isSymbolHead c then 1 + run isSymbolTail r else 0
  | _, _ => 0

/-- All classes, the stronger ones first. -/
def all : List LexClass :=
  [blank, comment, opening .round, closing .round, opening .square, closing .square, opening .curly,
    closing .curly,
   colon, plus, real, int, str, keyword "true" (.bool true), keyword "false" (.bool false),
   keyword "null" .null, tag, decl, path, symbol]

/-- The class with the longest lexeme, the first of them on a tie, with the length of the lexeme. -/
def longest (cs : List Char) : Option (LexClass × Nat) :=
  all.foldl (fun best k =>
    let n := k.length cs
    let record := match best with
      | some (_, m) => m
      | none => 0
    if record < n then some (k, n) else best) none

/-- The length of the bad stretch at the start of a text where no lexeme starts. -/
def badLength : List Char → Nat
  | '"' :: r => 1 + (strReach r).1
  | _ => 1

/-- The token that a lexeme of a class stands for, if its text has a value. Skipped classes have
none. -/
def token? (k : LexClass) (text : List Char) : Option Token :=
  match k with
  | blank | comment => none
  | opening b => some (.opening b)
  | closing b => some (.closing b)
  | colon => some .colon
  | plus => some .plus
  | real => (Real.ofText? text).map .real
  | int => (Text.integer64? text).map .int
  | str => (Text.unescape text.tail.dropLast).map fun body => .str (String.ofList body)
  | keyword _ t => some t
  | tag => some (.tag (String.ofList text.tail))
  | decl => some (.decl (String.ofList text.tail))
  | path => some (.path (String.ofList text))
  | symbol => some (.symbol (String.ofList text))

/-- Classes that leave no token. -/
def isSkipped : LexClass → Bool
  | blank | comment => true
  | _ => false

end LexClass

/-- A stretch of the source as the lexer sees it. -/
inductive Lexeme where
  | skipped
  | token (t : Token)
  | bad

/-- The first lexeme of a text that is not empty, with its length in characters. -/
def firstLexeme (cs : List Char) : Lexeme × Nat :=
  match LexClass.longest cs with
  | none => (.bad, LexClass.badLength cs)
  | some (k, n) =>
    if k.isSkipped then (.skipped, n)
    else match k.token? (cs.take n) with
      | some t => (.token t, n)
      | none => (.bad, n)

/-- All lexemes of a text that starts at the byte `offset`, with their spans. -/
def lexemes (offset : Nat) : List Char → List (Lexeme × Span)
  | [] => []
  | c :: cs =>
    let (lexeme, n) := firstLexeme (c :: cs)
    let stop := offset + byteLength (c :: cs.take (n - 1))
    (lexeme, ⟨offset, stop⟩) :: lexemes stop (cs.drop (n - 1))
termination_by cs => cs.length
decreasing_by
  rw [List.length_drop, List.length_cons]
  omega

/-- Adds a span to a list of spans, the latest first; one that is adjacent to the latest is joined
with it. -/
def joinAdjacent (spans : List Span) (s : Span) : List Span :=
  match spans with
  | last :: rest => if last.stop = s.start then last.merge s :: rest else s :: last :: rest
  | [] => [s]

namespace Token

/-- The token of a lexeme. -/
def tokenOf (l : Lexeme × Span) : Option (Token × Span) :=
  match l.1 with
  | .token t => some (t, l.2)
  | _ => none

/-- The stretch of a bad lexeme. -/
def badOf (l : Lexeme × Span) : Option Span :=
  match l.1 with
  | .bad => some l.2
  | _ => none

/-- The tokens of a source text with their spans, and the bad stretches of it. -/
def lex (source : List Char) : List (Token × Span) × List Span :=
  let found := (lexemes 0 source).map (Prod.map id Span.wrap)
  (found.filterMap tokenOf, ((found.filterMap badOf).foldl joinAdjacent []).reverse)

end Token

end Resolvent
