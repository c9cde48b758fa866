import AbsEval.Decimal
import AbsEval.Double.Basic

namespace AbsEval.Double

-- The double nearest to a decimal number, ties to even. Exponents are first brought near: from
-- `10 ^ 400` on every positive number is infinite, below `10 ^ -400` it is zero.
def ofDecimal (negative : Bool) (d : Decimal) : Double :=
  let least : Int := -((Nat.toDigits 10 d.significand).length + 400)
  let (num, den) := Decimal.shifted (d.significand * unitsPerOne) 1 (max least (min d.exponent 400))
  ofUnits negative num den

-- Of the two neighbours of a magnitude among the multiples of `10 ^ exponent`, the nearer one that
-- reads back as the magnitude. A tie goes up.
def readBackNeighbour? (units : Nat) (exponent : Int) : Option Decimal :=
  let (num, den) := Decimal.shifted units unitsPerOne (-exponent)
  let below : Decimal := ⟨num / den, exponent⟩
  let above : Decimal := ⟨num / den + 1, exponent⟩
  let nearestFirst := if 2 * (num % den) < den then [below, above] else [above, below]
  nearestFirst.find? fun d => ofDecimal false d = ofUnits false units 1

-- The decimal of fewest digits that reads back as the magnitude. Seventeen digits always do.
def shortest (units : Nat) : Decimal :=
  let leading := Decimal.leadingExponent units unitsPerOne
  ((List.range 17).findSome? fun (n : Nat) => readBackNeighbour? units (leading - n)).getD
    (Decimal.ofRatio 17 units unitsPerOne)

end AbsEval.Double
