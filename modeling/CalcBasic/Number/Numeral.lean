import CalcBasic.Number.Shortest

/-! Numerals: how numbers are written in full and in calculator code, and how
written numbers are read. -/
namespace CalcBasic.Number

/-- A decimal in positional notation, without exponent and without needless
zeros after the point. -/
def Decimal.text (d : Decimal) : String :=
  let digits := (Nat.toDigits 10 d.digits)
  let places := (-d.exponent).toNat
  let padded := List.replicate (places + 1 - digits.length) '0' ++ digits
  let whole := padded.take (padded.length - places) ++ List.replicate d.exponent.toNat '0'
  if places = 0 then String.ofList whole
  else String.ofList (whole ++ '.' :: padded.drop (padded.length - places))

/-- The number in full: fewest digits that read back, and the sign of zero. -/
def text (x : Float) : String :=
  if x.isNaN then "NaN"
  else
    let p := parts x
    let magnitude :=
      if x.isInf then "inf" else if p.significand = 0 then "0" else p.shortest.text
    if p.negative then "-" ++ magnitude else magnitude

/-- The number as calculator code, where zero has no sign. -/
def code (x : Float) : String := text (x + 0)

/-! ### Reading -/

def digitValue (c : Char) : Nat := c.toNat - '0'.toNat

def natOfDigits (digits : List Char) : Nat :=
  digits.foldl (fun value c => 10 * value + digitValue c) 0

/-- `mantissa · 10^exponent`, rounded to nearest. Values far out of range are
settled without computing the power. -/
def ofDecimal (mantissa : Nat) (exponent : Int) : Float :=
  let size := exponent + (Nat.toDigits 10 mantissa).length
  if mantissa = 0 then 0
  else if 400 < size then 1 / 0
  else if size < -400 then 0
  else if exponent < 0 then Float.ofScientific mantissa true exponent.natAbs
  else Float.ofScientific mantissa false exponent.natAbs

def readExponent : List Char → Option Int
  | [] => some 0
  | mark :: rest =>
    if mark.toLower != 'e' then none
    else
      let (negative, digits) := match rest with
        | '-' :: digits => (true, digits)
        | '+' :: digits => (false, digits)
        | digits => (false, digits)
      if digits.isEmpty || !digits.all Char.isDigit then none
      else if negative then some (-(natOfDigits digits : Int)) else some (natOfDigits digits)

def readMagnitude (chars : List Char) : Option Float :=
  match String.ofList (chars.map Char.toLower) with
  | "inf" | "infinity" => some (1 / 0)
  | "nan" => some (0 / 0)
  | _ =>
    let whole := chars.takeWhile Char.isDigit
    let afterWhole := chars.dropWhile Char.isDigit
    let (fraction, rest) := match afterWhole with
      | '.' :: tail => (tail.takeWhile Char.isDigit, tail.dropWhile Char.isDigit)
      | other => ([], other)
    if whole.isEmpty && fraction.isEmpty then none
    else (readExponent rest).map fun exponent =>
      ofDecimal (natOfDigits (whole ++ fraction)) (exponent - fraction.length)

/-- Reads a decimal number: an optional sign, then digits with an optional point
and exponent, or the name of an infinity or NaN. -/
def read? (written : String) : Option Float :=
  match written.toList with
  | '-' :: rest => (readMagnitude rest).map Float.neg
  | '+' :: rest => readMagnitude rest
  | rest => readMagnitude rest

/-- The value of a digit in radices up to 36. -/
def radixDigit? (radix : Nat) (c : Char) : Option Nat :=
  let value :=
    if c.isDigit then some (c.toNat - '0'.toNat)
    else if c.toLower.isLower then some (c.toLower.toNat - 'a'.toNat + 10)
    else none
  value.filter (· < radix)

/-- Reads digits up to the first that the radix does not have. -/
def readRadix (radix : Nat) : List Char → Float → Float
  | [], value => value
  | c :: rest, value =>
    match radixDigit? radix c with
    | some digit => readRadix radix rest (value * Float.ofNat radix + Float.ofNat digit)
    | none => value

/-- A radix written in one or two bytes; anything but digits is taken for 0. -/
def radixOf (lead : String) : Nat :=
  let digits := match lead.toList with
    | '+' :: rest => rest
    | rest => rest
  if digits.isEmpty || !digits.all Char.isDigit then 0 else natOfDigits digits

/-- The radix and digits of a literal that names its radix. -/
def radixForm? (written : List Char) : Option (Nat × List Char) :=
  let lead := String.ofList (written.takeWhile (· != 'r'))
  match written.dropWhile (· != 'r') with
  | _ :: digits =>
    if 0 < lead.utf8ByteSize && lead.utf8ByteSize ≤ 2 then some (radixOf lead, digits) else none
  | [] => none

/-- Splits a literal into its radix and digits; `none` for a decimal literal. -/
def radixParts? (written : List Char) : Option (Nat × List Char) :=
  radixForm? written <|>
    match written with
    | '0' :: 'x' :: digits => some (16, digits)
    | '0' :: 'o' :: digits => some (8, digits)
    | '0' :: 'b' :: digits => some (2, digits)
    | _ => none

/-- The value of a number literal, or the radix that no number can have. -/
def ofLiteral (written : String) : Except Nat Float :=
  let lower := written.toLower
  match radixParts? lower.toList with
  | none => .ok ((read? lower).getD 0)
  | some (radix, digits) =>
    if 2 ≤ radix && radix ≤ 36 then .ok (readRadix radix digits 0) else .error radix

/-! ### Base 36 -/

/-- A whole number in base 36 with capital letters. -/
def base36 (n : Nat) : String :=
  String.ofList (go n []) where
  digit (value : Nat) : Char :=
    if value < 10 then Char.ofNat ('0'.toNat + value) else Char.ofNat ('A'.toNat + value - 10)
  go (n : Nat) (tail : List Char) : List Char :=
    if n < 36 then digit n :: tail else go (n / 36) (digit (n % 36) :: tail)
  termination_by n

end CalcBasic.Number
