import CommandWire.Double.Basic

/-!
# The shortest decimal of a double

Of all decimals that read back as a given finite double, the one with the fewest digits is
chosen; among those with equally many digits the nearest, and of two equally near ones the one
with the even last digit. Seventeen digits always suffice.

A decimal reads back as `m · 2 ^ q` iff it lies between the midpoints to the two neighbouring
doubles, the midpoints included exactly when `m` is even. All comparisons are made between
natural numbers, so nothing is lost on the way.
-/

namespace CommandWire

/-- `digits · 10 ^ exponent`, where `digits` does not end in a zero. -/
structure Decimal where
  digits : Nat
  exponent : Int
deriving DecidableEq

namespace Decimal

/-- The number of decimal digits of `n`; zero has one. -/
def length (n : Nat) : Nat := if n < 10 then 1 else length (n / 10) + 1
termination_by n

/-- Trailing zeros go into the exponent. -/
def normalized (digits : Nat) (exponent : Int) : Decimal :=
  if h : digits ≠ 0 ∧ digits % 10 = 0 then normalized (digits / 10) (exponent + 1)
  else ⟨digits, exponent⟩
termination_by digits
decreasing_by omega

/-- The exponent `e` with `10 ^ e ≤ n / d < 10 ^ (e + 1)`, for positive `n` and `d`. -/
def magnitude (n d : Nat) : Int :=
  if d ≤ n then length (n / d) - 1
  else
    let places := length (d / n)
    if d ≤ n * Nat.pow 10 (places - 1) then 1 - places else -places

end Decimal

namespace Double

/-- The decimals that read back as a double: those between two ends with a common denominator. -/
structure Interval where
  low : Nat
  value : Nat
  high : Nat
  denominator : Nat
  /-- The ends themselves belong to the interval. -/
  closed : Bool

/-- The interval of a finite double other than zero. Above a power of two the doubles lie twice
as far apart as below it, so there the lower end is nearer. -/
def interval (x : Double) : Interval :=
  let m := 4 * x.significand
  let below := if x.fraction = 0 ∧ 1 < x.biasedExponent then 1 else 2
  let place := x.exponent - 2
  let unit := Nat.pow 2 place.toNat
  { low := (m - below) * unit
    value := m * unit
    high := (m + 2) * unit
    denominator := Nat.pow 2 (-place).toNat
    closed := x.significand % 2 = 0 }

namespace Interval

/-- `digits · 10 ^ exponent` belongs to the interval. -/
def contains (i : Interval) (digits : Nat) (exponent : Int) : Bool :=
  let n := digits * Nat.pow 10 exponent.toNat * i.denominator
  let scale := Nat.pow 10 (-exponent).toNat
  if i.closed then i.low * scale ≤ n ∧ n ≤ i.high * scale
  else i.low * scale < n ∧ n < i.high * scale

/-- The best decimal of the interval on the grid of multiples of `10 ^ exponent`, if the grid
meets the interval at a neighbour of its value. -/
def onGrid (i : Interval) (exponent : Int) : Option Nat :=
  let n := i.value * Nat.pow 10 (-exponent).toNat
  let d := i.denominator * Nat.pow 10 exponent.toNat
  let lower := n / d
  match i.contains lower exponent, i.contains (lower + 1) exponent with
  | true, true => some (roundedQuotient n d)
  | true, false => some lower
  | false, true => some (lower + 1)
  | false, false => none

/-- Tries grids with more and more digits. -/
def search (i : Interval) (exponent : Int) : (tries : Nat) → Decimal
  | 0 =>
    -- Seventeen digits tell all doubles apart, so this grid is never needed.
    ⟨i.value * Nat.pow 10 (-exponent).toNat / (i.denominator * Nat.pow 10 exponent.toNat),
      exponent⟩
  | tries + 1 =>
    match i.onGrid exponent with
    | some digits => Decimal.normalized digits exponent
    | none => i.search (exponent - 1) tries

end Interval

/-- The shortest decimal that reads back as the magnitude of a finite double. -/
def shortest (x : Double) : Decimal :=
  if x.significand = 0 then ⟨0, 0⟩
  else
    let i := x.interval
    i.search (Decimal.magnitude i.value i.denominator) 17

end Double

end CommandWire
