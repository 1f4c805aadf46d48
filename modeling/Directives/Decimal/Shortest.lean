/-
The shortest decimal that reads back as a given binary number.

A positive finite double is `mantissa * 2 ^ exponent`. The reals that round to it
form an interval whose ends belong to it when the mantissa is even. Among the
decimal grids, from coarse to fine, the first one with a point in the interval
gives the fewest digits; of two such points the nearer one is taken, and of two
equally near the even one.

* `Binary`: a positive number as mantissa and exponent; `Binary.ofFloat?`.
* `Binary.Interval`: the interval scaled to integers.
* `Decimal`: digits and a power of ten; `Binary.shortest`.
-/
namespace Directives

/-- A positive number `mantissa * 2 ^ exponent`. -/
structure Binary where
  mantissa : Nat
  exponent : Int
  /-- The next smaller number is only half as far away as the next larger one. -/
  lowerHalf : Bool
  deriving Repr, DecidableEq

/-- A number `digits * 10 ^ exponent`. -/
structure Decimal where
  digits : Nat
  exponent : Int
  deriving Repr, DecidableEq

namespace Binary

/-- The magnitude of a finite double, unless it is zero. -/
def ofFloat? (f : Float) : Option Binary :=
  let bits : Nat := f.toBits.toNat
  let fraction : Nat := bits % Nat.pow 2 52
  let biased : Nat := bits / Nat.pow 2 52 % Nat.pow 2 11
  if biased = 2047 then none
  else if biased = 0 then
    if fraction = 0 then none else some ⟨fraction, -1074, false⟩
  else
    some ⟨Nat.pow 2 52 + fraction, (biased : Int) - 1075, fraction == 0 && biased != 1⟩

/-- The number and the ends of its interval, as numerators over one denominator. -/
structure Interval where
  low : Nat
  value : Nat
  high : Nat
  denominator : Nat
  /-- The ends belong to the interval. -/
  closed : Bool

/-- The interval of the reals that round to the number. -/
def interval (b : Binary) : Interval :=
  let scale := Nat.pow 2 (b.exponent - 2).toNat
  let low := 4 * b.mantissa - if b.lowerHalf then 1 else 2
  { low := low * scale, value := 4 * b.mantissa * scale, high := (4 * b.mantissa + 2) * scale,
    denominator := Nat.pow 2 (2 - b.exponent).toNat, closed := b.mantissa % 2 == 0 }

/-- The point `digits * 10 ^ exponent` lies in the interval. -/
def Interval.holds (i : Interval) (digits : Nat) (exponent : Int) : Bool :=
  let point := digits * Nat.pow 10 exponent.toNat * i.denominator
  let down := Nat.pow 10 (-exponent).toNat
  if i.closed then i.low * down ≤ point && point ≤ i.high * down
  else i.low * down < point && point < i.high * down

/-- The point of the grid `10 ^ exponent` in the interval that is nearest to the
number, if the grid has one. -/
def Interval.nearest? (i : Interval) (exponent : Int) : Option Nat :=
  let step := Nat.pow 10 exponent.toNat * i.denominator
  let value := i.value * Nat.pow 10 (-exponent).toNat
  let below := value / step
  let remainder := value % step
  let belowHits := below != 0 && i.holds below exponent
  let aboveHits := i.holds (below + 1) exponent
  if belowHits && aboveHits then
    if 2 * remainder < step || (2 * remainder == step && below % 2 == 0) then some below
    else some (below + 1)
  else if belowHits then some below
  else if aboveHits then some (below + 1)
  else none

/-- A power of ten that the number does not exceed by a factor of ten. -/
def Interval.magnitude (i : Interval) : Int :=
  if i.denominator ≤ i.value then (Nat.toDigits 10 (i.value / i.denominator)).length
  else 2 - ((Nat.toDigits 10 (i.denominator / i.value)).length : Int)

/-- The first grid with a point in the interval, among `count` grids from
`10 ^ exponent` down. -/
def Interval.search (i : Interval) : (count : Nat) → (exponent : Int) → Decimal
  | 0, exponent =>
      let step := Nat.pow 10 exponent.toNat * i.denominator
      ⟨i.value * Nat.pow 10 (-exponent).toNat / step, exponent⟩
  | count + 1, exponent =>
      match i.nearest? exponent with
      | some digits => ⟨digits, exponent⟩
      | none => i.search count (exponent - 1)

/-- The shortest decimal that reads back as the number. Seventeen digits always
do, so eighteen grids below the magnitude are enough. -/
def shortest (b : Binary) : Decimal := b.interval.search 19 b.interval.magnitude

end Binary

end Directives
