import Resolvent.Real.Parts

/-!
# Shortest decimals

The reals that round to a given double form an interval around it. Among the decimals in that
interval the shortest one is found by going from coarse to fine powers of ten: the first power whose
grid has a point in the interval wins, and of two points on it the nearer one, the upper one on a
tie.
-/

namespace Resolvent.Real

/-- An interval around a value, all three as numerators over one denominator. -/
structure Interval where
  low : Nat
  value : Nat
  high : Nat
  den : Nat
  /-- Whether the two ends belong to the interval. -/
  closed : Bool
  deriving Repr

/-- The reals that round to `mantissa * 2 ^ exponent`. Below a power of two the neighbour is half as
far away. -/
def roundingInterval (mantissa : Nat) (exponent : Int) : Interval :=
  let below := if mantissa = Nat.pow 2 52 ∧ exponent > -1074 then 1 else 2
  let scale := if exponent ≥ 2 then Nat.pow 2 (exponent - 2).toNat else 1
  let den := if exponent ≥ 2 then 1 else Nat.pow 2 (2 - exponent).toNat
  { low := (4 * mantissa - below) * scale
    value := 4 * mantissa * scale
    high := (4 * mantissa + 2) * scale
    den
    closed := mantissa % 2 == 0 }

namespace Interval

/-- Whether `n / den` lies in the interval. -/
def contains (i : Interval) (n : Nat) : Bool :=
  if i.closed then i.low ≤ n && n ≤ i.high else i.low < n && n < i.high

/-- The interval with everything multiplied by `10 ^ places`. -/
def scaled (i : Interval) (places : Nat) : Interval :=
  let factor := Nat.pow 10 places
  { i with low := i.low * factor, value := i.value * factor, high := i.high * factor }

/-- The whole number in the interval that is nearest to its value. -/
def wholePoint? (i : Interval) : Option Nat :=
  let below := i.value / i.den
  let above := below + 1
  match i.contains (below * i.den), i.contains (above * i.den) with
  | true, true => if above * i.den - i.value ≤ i.value - below * i.den then some above
      else some below
  | true, false => some below
  | false, true => some above
  | false, false => none

end Interval

/-- Tries one more place after the point until a grid point falls into the interval. -/
def shortestFrom (i : Interval) : (fuel places : Nat) → Nat × Nat
  | 0, places => ((i.scaled places).value / i.den, places)
  | fuel + 1, places =>
    match (i.scaled places).wholePoint? with
    | some n => (n, places)
    | none => shortestFrom i fuel (places + 1)

/-- The shortest decimal `n / 10 ^ places` that rounds to `mantissa * 2 ^ exponent`, for values that
are not whole. -/
def shortest (mantissa : Nat) (exponent : Int) : Nat × Nat :=
  shortestFrom (roundingInterval mantissa exponent) 1100 0

end Resolvent.Real
