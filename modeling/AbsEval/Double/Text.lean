import AbsEval.Double.Decimal

namespace AbsEval.Double

-- The choices that fix a textual form of doubles.
structure Style where
  -- Significant digits to round to, or the fewest that read back.
  places : Option Nat
  -- The decimal exponents that are written positionally.
  positional : Int → Bool
  -- Ends a positional number without fraction.
  wholeTail : String
  exponentText : Int → String
  signedZero : Bool
  nanText : String
  infinityText : String

def decimal (style : Style) (units : Nat) : Decimal :=
  match style.places with
  | some places => Decimal.ofRatio places units unitsPerOne
  | none => shortest units

def magnitudeText (style : Style) (units : Nat) : String :=
  if units = 0 then "0" ++ style.wholeTail
  else
    let d := decimal style units
    if style.positional (d.point - 1) then d.positional style.wholeTail
    else d.scientific style.exponentText

def text (style : Style) : Double → String
  | notANumber .. => style.nanText
  | infinite negative => (if negative then "-" else "") ++ style.infinityText
  | finite negative units _ =>
    (if negative && (style.signedZero || units ≠ 0) then "-" else "") ++ magnitudeText style units

end AbsEval.Double
