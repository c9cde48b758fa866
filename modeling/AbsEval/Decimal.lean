import AbsEval.Double.Rounding

namespace AbsEval

-- An integer in decimal, with a minus sign if it is negative.
def integerText (n : Int) : String :=
  String.ofList ((if n < 0 then ['-'] else []) ++ Nat.toDigits 10 n.natAbs)

-- The number `significand * 10 ^ exponent`.
structure Decimal where
  significand : Nat
  exponent : Int
deriving DecidableEq

namespace Decimal

-- The ratio `num / den` times `10 ^ shift`, again as numerator and denominator.
def shifted (num den : Nat) (shift : Int) : Nat × Nat :=
  if 0 ≤ shift then (num * 10 ^ shift.toNat, den) else (num, den * 10 ^ (-shift).toNat)

-- The exponent `e` with `10 ^ e ≤ num / den < 10 ^ (e + 1)`, for a positive ratio. Below one it is
-- read off the largest natural number less than `den / num`.
def leadingExponent (num den : Nat) : Int :=
  if den ≤ num then
    (Nat.toDigits 10 (num / den)).length - 1
  else
    -(Nat.toDigits 10 ((den - 1) / num)).length

-- The decimal with this many significant digits nearest to `num / den`, ties to even. Rounding up
-- to the next power of ten leaves one more digit, a zero.
def ofRatio (places num den : Nat) : Decimal :=
  let exponent := leadingExponent num den - (places - 1)
  let (n, d) := shifted num den (-exponent)
  ⟨roundHalfEven n d, exponent⟩

-- Digits without trailing zeros.
def digits (d : Decimal) : List Char :=
  ((Nat.toDigits 10 d.significand).reverse.dropWhile (· == '0')).reverse

-- Where the point stands: this many digits are before it, counting on with zeros beyond the last
-- digit and, if negative, with zeros right after the point.
def point (d : Decimal) : Int :=
  (Nat.toDigits 10 d.significand).length + d.exponent

-- Positional notation. A number without fraction ends in `tail`.
def positional (d : Decimal) (tail : String) : String :=
  let ds := d.digits
  if d.point ≤ 0 then
    "0." ++ String.ofList (List.replicate (-d.point).toNat '0' ++ ds)
  else if ds.length ≤ d.point.toNat then
    String.ofList (ds ++ List.replicate (d.point.toNat - ds.length) '0') ++ tail
  else
    String.ofList (ds.take d.point.toNat) ++ "." ++ String.ofList (ds.drop d.point.toNat)

-- One digit before the point, and the text of the exponent behind.
def scientific (d : Decimal) (exponentText : Int → String) : String :=
  let fraction := d.digits.drop 1
  String.ofList (d.digits.take 1) ++
    (if fraction.isEmpty then "" else "." ++ String.ofList fraction) ++
    exponentText (d.point - 1)

end Decimal

end AbsEval
