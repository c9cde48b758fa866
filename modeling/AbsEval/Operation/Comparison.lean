import AbsEval.Conversion.Scalar

namespace AbsEval

-- The value of a truth that may be open.
def Value.ofTruth? (truth : Option Bool) : Value :=
  truth.elim (.any .boolean) .bool

namespace IdentityOp

def holds? (op : IdentityOp) (same : Option Bool) : Option Bool :=
  match op with
  | identical => same
  | notIdentical => same.map not

end IdentityOp

namespace Value

-- Whether two values are equal and of one type. Two arrays with different identities may still hold
-- the same, and floats are equal as numbers.
def same? (left right : Value) : Option Bool :=
  if !Family.intersect left.families right.families then some false
  else
    match left, right with
    | float x, float y => some (x.numEq y)
    | array a, array b => if a = b then some true else none
    | intRange range, int n => if range.contains n then none else some false
    | int n, intRange range => if range.contains n then none else some false
    | floatRange range, float x => if range.contains x then none else some false
    | float x, floatRange range => if range.contains x then none else some false
    | intRange a, intRange b => if a.isDisjoint b then some false else none
    | floatRange a, floatRange b => if a.isDisjoint b then some false else none
    | a, b => if a.isConcrete && b.isConcrete then some (a = b) else none

-- Identity of two values that can only be floats depends on the last bit.
def comparesFloats (left right : Value) : Bool :=
  left.families = [.float] && right.families = [.float]

end Value

-- The numbers between two ends, as far as a comparison can tell.
structure Span where
  low : Double
  high : Double

namespace Span

def point (x : Double) : Span := ⟨x, x⟩

def ofInts (low high : Int) : Span := ⟨.ofInt low, .ofInt high⟩

def equal : Span := ofInts 0 0

def above : Span := ofInts 1 1

def below : Span := ofInts (-1) (-1)

def ofTruth? : Option Bool → Span
  | some true => ofInts 1 1
  | some false => ofInts 0 0
  | none => ofInts 0 1

-- Where the first text stands relative to the second, in the order of their code points.
def ofTexts (left right : String) : Span :=
  if left < right then below else if left = right then equal else above

end Span

namespace CompareOp

-- All numbers of the one span equal all of the other.
def equal? (l r : Span) : Option Bool :=
  if l.low.numEq l.high && r.low.numEq r.high && l.low.numEq r.low then some true
  else if l.high < r.low || r.high < l.low then some false
  else none

def less? (l r : Span) : Option Bool :=
  if l.high < r.low then some true
  else if r.high ≤ l.low then some false
  else none

def lessEq? (l r : Span) : Option Bool :=
  if l.high ≤ r.low then some true
  else if r.high < l.low then some false
  else none

-- The answer that holds for all pairs of numbers from two spans, if there is one.
def decide? (op : CompareOp) (l r : Span) : Option Bool :=
  match op with
  | equal => equal? l r
  | notEqual => (equal? l r).map not
  | less => less? l r
  | lessEq => lessEq? l r
  | greater => less? r l
  | greaterEq => lessEq? r l

end CompareOp

namespace Value

def isBooleanLike : Value → Bool
  | null | bool _ | any .boolean => true
  | _ => false

-- Numbers and texts, known or not.
def isDefiniteScalar (v : Value) : Bool :=
  !v.families.isEmpty && v.families.all fun family => family ∈ Family.numeric || family = .string

-- The numbers a value may count as.
def span? : Value → Option Span
  | int n => some (.ofInts n.toInt n.toInt)
  | float x => some (.point x)
  | str text => some (.point (Numeral.ofText true text).toDouble)
  | resource id => some (.ofInts id.toNat id.toNat)
  | intRange range => some (.ofInts range.start.toInt range.stop.toInt)
  | floatRange range => some ⟨range.start, range.stop⟩
  | any .integer => some (.ofInts Int32.minValue.toInt Int32.maxValue.toInt)
  | _ => none

-- An array is above every number and text, and arrays of different identity do not compare.
def compareArrays? (op : CompareOp) (left right : Value) : Option Bool :=
  if left.isArrayLike && right.isDefiniteScalar then op.decide? .above .equal
  else if right.isArrayLike && left.isDefiniteScalar then op.decide? .equal .above
  else
    match left, right with
    | array a, array b => if a = b then op.decide? .equal .equal else none
    | _, _ => none

-- An object is equal to itself. Compared with a number or a text it would have to become an
-- integer.
def compareObjects? (op : CompareOp) (left right : Value) : Noted (Option Bool) :=
  match left, right with
  | object a _, object b _ => .quiet (if a = b then op.decide? .equal .equal else none)
  | _, _ =>
    if left.isDefiniteScalar || right.isDefiniteScalar then
      .warned none (.objectToIntegerBy "comparison")
    else .quiet none

-- Comparison after conversion to a common type: with null a text is a text, else a boolean or null
-- makes both sides booleans, two texts compare as texts, and all others as numbers.
def compare? (store : Store) (op : CompareOp) (left right : Value) : Noted (Option Bool) :=
  match left, right with
  | null, str text => .quiet (op.decide? (.ofTexts "" text) .equal)
  | str text, null => .quiet (op.decide? (.ofTexts text "") .equal)
  | null, any .string | any .string, null => .quiet none
  | left, right =>
    if left.isBooleanLike || right.isBooleanLike then
      .quiet (op.decide? (.ofTruth? (left.truth? store)) (.ofTruth? (right.truth? store)))
    else if left.isArrayLike || right.isArrayLike then .quiet (compareArrays? op left right)
    else if left.isObjectLike || right.isObjectLike then compareObjects? op left right
    else
      match left, right with
      | str a, str b => .quiet (op.decide? (.ofTexts a b) .equal)
      | left, right =>
        match left.span?, right.span? with
        | some l, some r => .quiet (op.decide? l r)
        | _, _ => .quiet none

end Value

end AbsEval
