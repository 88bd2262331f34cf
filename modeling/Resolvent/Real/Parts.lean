/-!
# The parts of a double

A double is a sign with a magnitude: zero or a whole number times a power of two, an infinity, or no
number. Printing and rounding work on these parts in exact arithmetic.
-/

namespace Resolvent.Real

/-- What a double holds apart from its sign. -/
inductive Magnitude where
  /-- The number `mantissa * 2 ^ exponent`. -/
  | finite (mantissa : Nat) (exponent : Int)
  | infinite
  | notANumber
  deriving DecidableEq, Repr

/-- The sign bit. -/
def isNegative (x : Float) : Bool := x.toBits >>> 63 == 1

/-- The magnitude of a double, read off its bits. -/
def magnitude (x : Float) : Magnitude :=
  let bits : Nat := x.toBits.toNat % (UInt64.size / 2)
  let exponent : Nat := bits / Nat.pow 2 52
  let fraction : Nat := bits % Nat.pow 2 52
  if exponent = 2047 then
    if fraction = 0 then .infinite else .notANumber
  else if exponent = 0 then .finite fraction (-1074)
  else .finite (Nat.pow 2 52 + fraction) ((exponent : Int) - 1075)

/-- The whole part of `mantissa * 2 ^ exponent`. -/
def wholePart (mantissa : Nat) (exponent : Int) : Nat :=
  if exponent ≥ 0 then mantissa * Nat.pow 2 exponent.toNat
    else mantissa / Nat.pow 2 (-exponent).toNat

/-- Whether `mantissa * 2 ^ exponent` is a whole number. -/
def isWhole (mantissa : Nat) (exponent : Int) : Bool :=
  exponent ≥ 0 || mantissa % Nat.pow 2 (-exponent).toNat == 0

/-- Rounds toward zero, stopping at the ends of the range; no number becomes zero. -/
def truncate (x : Float) : Int64 :=
  let limit : Int := UInt64.size / 2
  match magnitude x with
  | .notANumber => 0
  | .infinite => if isNegative x then Int64.minValue else Int64.maxValue
  | .finite m e =>
    let n : Int := wholePart m e
    let n := if isNegative x then -n else n
    if n < -limit then Int64.minValue
    else if n ≥ limit then Int64.maxValue
    else Int64.ofInt n

/-- The double nearest to an integer, ties to the even one. -/
def ofInt64 (n : Int64) : Float :=
  let magnitude := (UInt64.ofNat n.toInt.natAbs).toFloat
  if n < 0 then -magnitude else magnitude

end Resolvent.Real
