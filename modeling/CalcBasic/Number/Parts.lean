/-! A binary number taken apart: sign, whole significand and power of two. -/
namespace CalcBasic.Number

/-- The finite value `significand · 2^exponent`, negated if `negative`. -/
structure Parts where
  negative : Bool
  significand : Nat
  exponent : Int
  deriving DecidableEq, Repr

/-- The least exponent, that of the subnormal numbers. -/
def leastExponent : Int := -1074

/-- Width of the stored fraction. -/
def fractionWidth : Nat := 52

/-- The parts of a finite number; what an infinity or NaN gives is no value. -/
def parts (x : Float) : Parts :=
  let bits := x.toBits.toNat
  let fraction := bits % Nat.pow 2 fractionWidth
  let field := bits / Nat.pow 2 fractionWidth % Nat.pow 2 11
  { negative := bits / Nat.pow 2 63 == 1
    significand := if field = 0 then fraction else Nat.pow 2 fractionWidth + fraction
    exponent := if field = 0 then leastExponent else leastExponent + (field - 1 : Nat) }

/-- The number with the given parts. Exact when the significand has at most 53
bits and the exponent is at least `leastExponent` and in range. -/
def ofParts (p : Parts) : Float :=
  let room := min (fractionWidth - p.significand.log2) (p.exponent - leastExponent).toNat
  let significand := p.significand * Nat.pow 2 room
  let field := if significand < Nat.pow 2 fractionWidth then 0
    else (p.exponent - leastExponent).toNat - room
  let sign := if p.negative then Nat.pow 2 63 else 0
  -- A normal significand carries the implicit bit into the field, which so gains one.
  Float.ofBits (sign + field * Nat.pow 2 fractionWidth + significand).toUInt64

end CalcBasic.Number
