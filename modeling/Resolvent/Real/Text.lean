import Resolvent.Real.Shortest
import Resolvent.Text.Numeral

/-!
# Text of real numbers

Reals are written positionally, never with an exponent: a whole number with all its digits and one
zero after the point, any other with the fewest digits that read back. Reading takes a sign, digits
with an optional point and an optional exponent, and the names of the infinities and of no number in
any case.
-/

namespace Resolvent.Real

/-- Digits with a point before the last `places` of them. -/
def positional (digits places : Nat) : String :=
  let ds := Nat.toDigits 10 digits
  let ds := List.replicate (places + 1 - ds.length) '0' ++ ds
  let whole := ds.take (ds.length - places)
  String.ofList (whole ++ '.' :: ds.drop (ds.length - places))

/-- The text of a real. -/
def text (x : Float) : String :=
  let sign := if isNegative x then "-" else ""
  match magnitude x with
  | .notANumber => "NaN"
  | .infinite => sign ++ "inf"
  | .finite m e =>
    if isWhole m e then sign ++ Nat.repr (wholePart m e) ++ ".0"
    else
      let (digits, places) := shortest m e
      sign ++ positional digits places

/-- The infinity of the positive sign. -/
def infinity : Float := Float.ofBits 0x7ff0000000000000

/-- No number. -/
def notANumber : Float := Float.ofBits 0x7ff8000000000000

/-- The double nearest to `digits * 10 ^ exponent`. Numbers beyond the range are caught before any
power is taken. -/
def ofDecimal (digits : Nat) (exponent : Int) : Float :=
  let size : Int := (Nat.toDigits 10 digits).length + exponent
  if digits = 0 ∨ size < -400 then 0.0
  else if size > 400 then infinity
  else Float.ofScientific digits (exponent < 0) exponent.natAbs

/-- The exponent of a decimal: nothing, or a mark with an optional sign and digits. -/
def exponent? : List Char → Option Int
  | [] => some 0
  | 'e' :: cs | 'E' :: cs =>
    match cs with
    | '-' :: r => (Text.unsigned? 10 r).map fun n => -(n : Int)
    | '+' :: r => (Text.unsigned? 10 r).map fun n => (n : Int)
    | r => (Text.unsigned? 10 r).map fun n => (n : Int)
  | _ => none

/-- An unsigned decimal: digits before or after a point, then an exponent. -/
def decimal? (cs : List Char) : Option Float :=
  let (whole, rest) := cs.span Text.isDigit
  let (places, rest) := match rest with
    | '.' :: r => r.span Text.isDigit
    | r => ([], r)
  match Text.unsigned? 10 (whole ++ places), exponent? rest with
  | some digits, some e => some (ofDecimal digits (e - places.length))
  | _, _ => none

/-- A number without its sign. -/
def unsigned? (cs : List Char) : Option Float :=
  let word := String.ofList (cs.map Char.toLower)
  if word = "inf" ∨ word = "infinity" then some infinity
  else if word = "nan" then some notANumber
  else decimal? cs

/-- Reads a real. -/
def ofText? : List Char → Option Float
  | '-' :: cs => (unsigned? cs).map fun x => -x
  | '+' :: cs => unsigned? cs
  | cs => unsigned? cs

end Resolvent.Real
