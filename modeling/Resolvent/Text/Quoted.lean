import Resolvent.Text.Classes
import Resolvent.Text.Numeral

/-!
# Quoted text

Strings are written between double quotes with backslash escapes, in two directions: `quote` writes
a string, and `unescape` reads the body between the quotes. Writing uses the short escapes where
there is one and a hexadecimal code point for every character that would not show on its own.
-/

namespace Resolvent.Text

/-- The digits of a number in lower case hexadecimal, without padding. -/
def hexadecimal (n : Nat) : List Char := Nat.toDigits 16 n

/-- The escape that names a code point. -/
def codePointEscape (c : Char) : List Char :=
  ['\\', 'u', '\x7b'] ++ hexadecimal c.toNat ++ ['\x7d']

/-- How a character is written inside quotes. -/
def escapeChar (c : Char) : List Char :=
  if c = '\x00' then ['\\', '0']
  else if c = '\t' then ['\\', 't']
  else if c = '\r' then ['\\', 'r']
  else if c = '\n' then ['\\', 'n']
  else if c = '"' then ['\\', '"']
  else if c = '\\' then ['\\', '\\']
  else if isExtending c || isHidden c then codePointEscape c
  else [c]

/-- The body of a quoted string. -/
def escape (cs : List Char) : List Char := cs.flatMap escapeChar

/-- A string between quotes. -/
def quote (s : String) : String :=
  String.ofList ('"' :: (escape s.toList ++ ['"']))

/-- The character that a numeral between the braces of an escape names. -/
def codePoint? (digits : List Char) : Option Char :=
  (natural? 16 (UInt32.size - 1) digits).bind fun n =>
    if h : n.isValidChar then some (Char.ofNatAux n h) else none

/-- The character that a single letter after a backslash stands for. -/
def shortEscape? : Char → Option Char
  | 'n' => some '\n'
  | 't' => some '\t'
  | 'r' => some '\r'
  | '0' => some '\x00'
  | '\\' => some '\\'
  | '"' => some '"'
  | _ => none

mutual

/-- Reads the body of a quoted string; nothing if an escape is unknown or names no character. -/
def unescape : List Char → Option (List Char)
  | [] => some []
  | '\\' :: 'u' :: '\x7b' :: r => unescapeCode [] r
  | '\\' :: c :: r => (shortEscape? c).bind fun d => (unescape r).map (d :: ·)
  | '\\' :: [] => none
  | c :: r => (unescape r).map (c :: ·)

/-- Reads the code point of an escape whose digits so far are `seen`, last first. The numeral ends
at the closing brace or with the body. -/
def unescapeCode (seen : List Char) : List Char → Option (List Char)
  | [] => (codePoint? seen.reverse).map fun c => [c]
  | '\x7d' :: r => (codePoint? seen.reverse).bind fun c => (unescape r).map (c :: ·)
  | d :: r => unescapeCode (d :: seen) r

end

end Resolvent.Text
