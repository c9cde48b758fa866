import AbsEval.Double.Basic

namespace AbsEval

-- A closed interval. Both ends belong to it, so it is never empty.
structure Interval (α : Type) [LE α] where
  start : α
  stop : α
  ordered : start ≤ stop
deriving DecidableEq

-- A type of interval ends, with its zero and its extremes.
class Bound (α : Type) [LE α] where
  zero : α
  lowest : α
  highest : α
  lowest_le_highest : lowest ≤ highest

instance : Bound Int32 := ⟨0, Int32.minValue, Int32.maxValue, by decide⟩

instance : Bound Int64 := ⟨0, Int64.minValue, Int64.maxValue, by decide⟩

instance : Bound Double := ⟨.zero, .infinite true, .infinite false, by decide +kernel⟩

namespace Interval

variable {α : Type} [LE α] [DecidableLE α]

-- Reversed ends, or ends that do not compare, make no interval.
def between? (start stop : α) : Option (Interval α) :=
  if h : start ≤ stop then some ⟨start, stop, h⟩ else none

-- The interval with these ends, whichever is the lower one.
def spanning? (a b : α) : Option (Interval α) :=
  between? a b <|> between? b a

def point? (x : α) : Option (Interval α) :=
  between? x x

def entire [Bound α] : Interval α :=
  ⟨Bound.lowest, Bound.highest, Bound.lowest_le_highest⟩

-- The interval holds a single point. Its ends may still differ as values, as the two zeros do.
def isPoint (i : Interval α) : Bool :=
  i.stop ≤ i.start

def contains (i : Interval α) (x : α) : Bool :=
  i.start ≤ x && x ≤ i.stop

def containsZero [Bound α] (i : Interval α) : Bool :=
  i.contains Bound.zero

def isZero [Bound α] (i : Interval α) : Bool :=
  i.containsZero && i.isPoint

def isDisjoint [LT α] [DecidableLT α] (i j : Interval α) : Bool :=
  i.stop < j.start || j.stop < i.start

end Interval

end AbsEval
