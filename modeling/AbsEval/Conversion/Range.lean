import AbsEval.Conversion.Scalar

namespace AbsEval.Value

-- The bounds of a number after conversion. Both ends must have a counterpart.

def intBounds? : Value → Option (Interval Int32)
  | int n => Interval.point? n
  | intRange range => some range
  | long n => (int32? n.toInt).bind Interval.point?
  | longRange range => do
    Interval.between? (← int32? range.start.toInt) (← int32? range.stop.toInt)
  | float x => x.toInt32?.bind Interval.point?
  | floatRange range => do Interval.between? (← range.start.toInt32?) (← range.stop.toInt32?)
  | _ => none

def longBounds? : Value → Option (Interval Int64)
  | int n => Interval.point? n.toInt64
  | intRange range => Interval.between? range.start.toInt64 range.stop.toInt64
  | long n => Interval.point? n
  | longRange range => some range
  | float x => x.toInt64?.bind Interval.point?
  | floatRange range => do Interval.between? (← range.start.toInt64?) (← range.stop.toInt64?)
  | _ => none

def floatBounds? : Value → Option (Interval Double)
  | int n => Interval.point? (.ofInt n.toInt)
  | intRange range => Interval.between? (.ofInt range.start.toInt) (.ofInt range.stop.toInt)
  | long n => Interval.point? (.ofInt n.toInt)
  | longRange range => Interval.between? (.ofInt range.start.toInt) (.ofInt range.stop.toInt)
  | float x => Interval.point? x
  | floatRange range => some range
  | _ => none

-- Integers between two ends of one width. Where an end is beyond it, something else stands in.
def wordsBetween {ω : Type} [LE ω] [Complement ω] [Word ω] (integers : ω → ω → Value)
    (low high : Int) (beyond : Value) : Value :=
  match word? low, word? high with
  | some bottom, some top => integers bottom top
  | _, _ => beyond

end AbsEval.Value
