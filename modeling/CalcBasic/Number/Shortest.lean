import CalcBasic.Number.Parts

/-! The shortest decimal that reads back as a given binary number. Everything is
exact arithmetic on whole numbers. -/
namespace CalcBasic.Number

/-- The decimal value `digits · 10^exponent`. -/
structure Decimal where
  digits : Nat
  exponent : Int
  deriving DecidableEq, Repr

/-- The reals that round to a number, in quarters of `2^exponent`. -/
structure Interval where
  low : Nat
  value : Nat
  high : Nat
  /-- Whether the ends themselves round to the number. -/
  closed : Bool
  exponent : Int
  deriving DecidableEq, Repr

/-- The gap below a power of two is half the gap above it. -/
def Parts.interval (p : Parts) : Interval :=
  let narrow := p.significand == Nat.pow 2 fractionWidth && leastExponent < p.exponent
  { low := 4 * p.significand - (if narrow then 1 else 2)
    value := 4 * p.significand
    high := 4 * p.significand + 2
    closed := p.significand % 2 == 0
    exponent := p.exponent - 2 }

/-- `2^binary / 10^decimal` as numerator and denominator. -/
def scale (binary decimal : Int) : Nat × Nat :=
  (Nat.pow 2 binary.toNat * Nat.pow 10 (-decimal).toNat,
    Nat.pow 2 (-binary).toNat * Nat.pow 10 decimal.toNat)

/-- The multiple of `10^exponent` in the interval that is nearest to its value.
Of two equally near ones the larger is taken. -/
def Interval.nearest? (interval : Interval) (exponent : Int) : Option Decimal :=
  let (numerator, denominator) := scale interval.exponent exponent
  let value := interval.value * numerator
  let below := value / denominator
  let above := below + 1
  let reaches := fun (a b : Nat) => if interval.closed then a ≤ b else a < b
  let belowFits := decide (reaches (interval.low * numerator) (below * denominator))
  let aboveFits := decide (reaches (above * denominator) (interval.high * numerator))
  let nearAbove := decide (above * denominator - value ≤ value - below * denominator)
  if aboveFits && (!belowFits || nearAbove) then some ⟨above, exponent⟩
  else if belowFits then some ⟨below, exponent⟩
  else none

/-- A decimal exponent whose power exceeds every number of that binary size. -/
def topExponent (size : Int) : Int := size * 30103 / 100000 + 2

/-- The shortest decimal in the interval of a nonzero number. The coarsest grid
that meets the interval has the fewest digits, and 17 digits always suffice. -/
def Parts.shortest (p : Parts) : Decimal :=
  let interval := p.interval
  let top := topExponent (p.exponent + p.significand.log2)
  ((List.range 22).findSome? fun (down : Nat) => interval.nearest? (top - down)).getD ⟨0, 0⟩

end CalcBasic.Number
