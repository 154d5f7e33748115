import CalcBasic.Number.Parts

/-! The remainder of a division that rounds towards zero, computed exactly. -/
namespace CalcBasic.Number

/-- Both significands at the smaller of the two exponents. -/
def aligned (a b : Parts) : Nat × Nat × Int :=
  let exponent := min a.exponent b.exponent
  (a.significand * Nat.pow 2 (a.exponent - exponent).toNat,
    b.significand * Nat.pow 2 (b.exponent - exponent).toNat, exponent)

/-- `x - y · trunc (x / y)` without rounding, with the sign of `x`. -/
def remainder (x y : Float) : Float :=
  if !x.isFinite || y.isNaN || y == 0 then 0 / 0
  else if y.isInf then x
  else
    let dividend := parts x
    let (a, b, exponent) := aligned dividend (parts y)
    ofParts { negative := dividend.negative, significand := a % b, exponent }

end CalcBasic.Number
