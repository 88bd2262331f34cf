/-!
# Numerals

Reading whole numbers from text: digits of a base, an optional plus sign, and a bound on the value.
Only the ASCII digits and letters count. A bounded numeral is refused as a whole when its value is
out of range.
-/

namespace Resolvent.Text

/-- Decimal digits. -/
def isDigit (c : Char) : Bool := '0' ≤ c && c ≤ '9'

/-- The value of a digit, lower or upper case, if it is one in the base. -/
def digitValue (base : Nat) (c : Char) : Option Nat :=
  let value :=
    if '0' ≤ c && c ≤ '9' then some (c.toNat - '0'.toNat)
    else if 'a' ≤ c && c ≤ 'z' then some (c.toNat - 'a'.toNat + 10)
    else if 'A' ≤ c && c ≤ 'Z' then some (c.toNat - 'A'.toNat + 10)
    else none
  value.filter (· < base)

/-- Reads digits on after the number `acc`. -/
def readDigits (base : Nat) (acc : Nat) : List Char → Option Nat
  | [] => some acc
  | c :: cs => (digitValue base c).bind fun d => readDigits base (acc * base + d) cs

/-- One or more digits of the base, and nothing else. -/
def unsigned? (base : Nat) : List Char → Option Nat
  | [] => none
  | cs => readDigits base 0 cs

/-- A numeral of at most `limit`, with or without a leading plus sign. -/
def natural? (base limit : Nat) (cs : List Char) : Option Nat :=
  let digits := match cs with
    | '+' :: r => r
    | r => r
  (unsigned? base digits).filter (· ≤ limit)

/-- Decimal numerals of 32 bits. -/
def natural32? (cs : List Char) : Option Nat := natural? 10 (UInt32.size - 1) cs

/-- Decimal numerals of 64 bits, such as positions. -/
def natural64? (cs : List Char) : Option Nat := natural? 10 (UInt64.size - 1) cs

/-- Decimal numerals of 64 bits with an optional sign. -/
def integer64? : List Char → Option Int64
  | '-' :: cs => ((unsigned? 10 cs).filter (· ≤ UInt64.size / 2)).map fun n => Int64.ofInt (-n)
  | cs => (natural? 10 (UInt64.size / 2 - 1) cs).map fun n => Int64.ofNat n

/-- An integer in decimal. -/
def decimal (n : Int) : String :=
  if n < 0 then "-" ++ Nat.repr n.natAbs else Nat.repr n.natAbs

end Resolvent.Text
