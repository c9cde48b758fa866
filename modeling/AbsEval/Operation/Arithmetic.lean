import AbsEval.Conversion.Scalar

namespace AbsEval

namespace ArithmeticOp

-- The result on integers, if it is an integer.
def onInts? (op : ArithmeticOp) (a b : Int) : Option Int :=
  match op with
  | add => some (a + b)
  | sub => some (a - b)
  | mul => some (a * b)
  | div => if b ≠ 0 ∧ b ∣ a then some (a / b) else none

def onFloats (op : ArithmeticOp) (x y : Double) : Double :=
  match op with
  | add => x + y
  | sub => x - y
  | mul => x * y
  | div => x / y

end ArithmeticOp

-- The numbers an operand may be.
inductive Operand where
  | int (n : Int32)
  | float (x : Double)
  | ints (low high : Int32)
  | floats (low high : Double)
  | anyFloat
  | unknown

namespace Operand

def ofValue : Value → Operand
  | .null => int 0
  | .bool b => int b.toInt32
  | .int n => int n
  | .float x => float x
  | .str text =>
    let numeral := Numeral.ofText true text
    if numeral.isInteger then int numeral.toInt32 else float numeral.toDouble
  | .resource id => (int32? id.toNat).elim unknown int
  | .intRange range => ints range.start range.stop
  | .floatRange range => floats range.start range.stop
  | .any .boolean => ints 0 1
  | .any .integer => ints Int32.minValue Int32.maxValue
  | .any .float => anyFloat
  | _ => unknown

def mayBeZero : Operand → Bool
  | int n => n = 0
  | float x => x.isZero
  | ints low high => low ≤ 0 && 0 ≤ high
  | floats low high => low ≤ .zero && .zero ≤ high
  | anyFloat | unknown => true

end Operand

-- Known bounds of an operand.
inductive OperandRange where
  | ints (low high : Int32)
  | floats (low high : Double)

def Operand.range? : Operand → Option OperandRange
  | int n => some (.ints n n)
  | float x => some (.floats x x)
  | ints low high => some (.ints low high)
  | floats low high => some (.floats low high)
  | anyFloat | unknown => none

def OperandRange.low : OperandRange → Double
  | ints low _ => .ofInt low.toInt
  | floats low _ => low

def OperandRange.high : OperandRange → Double
  | ints _ high => .ofInt high.toInt
  | floats _ high => high

namespace ArithmeticOp

-- A result that is no 32-bit integer is a float.
def intResult (op : ArithmeticOp) (a b : Int32) : Value :=
  ((op.onInts? a.toInt b.toInt).bind int32?).elim
    (.float (op.onFloats (.ofInt a.toInt) (.ofInt b.toInt))) .int

-- Least and greatest of the results at the corners. Quotients need not be integers, so division has
-- none here.
def intExtremes? (op : ArithmeticOp) (a b c d : Int) : Option (Int × Int) :=
  if op = div then none
  else do
    let ac ← op.onInts? a c
    let ad ← op.onInts? a d
    let bc ← op.onInts? b c
    let bd ← op.onInts? b d
    some (min (min ac ad) (min bc bd), max (max ac ad) (max bc bd))

-- The results between the extremes, if these are 32-bit integers.
def intCorners? (op : ArithmeticOp) (a b c d : Int32) : Option Value := do
  let (low, high) ← op.intExtremes? a.toInt b.toInt c.toInt d.toInt
  some (.intsBetween (← int32? low) (← int32? high))

def floatCorners (op : ArithmeticOp) (l r : OperandRange) : Value :=
  let corners := [op.onFloats l.low r.low, op.onFloats l.low r.high,
    op.onFloats l.high r.low, op.onFloats l.high r.high]
  if corners.any Double.isNaN then .any .float
  else
    .floatsBetween (corners.foldl Double.lesser (.infinite false))
      (corners.foldl Double.greater (.infinite true))

-- If a corner is beyond 32 bits, all corners are taken in floating point.
def rangeResult (op : ArithmeticOp) (l r : OperandRange) : Value :=
  match l, r with
  | .ints a b, .ints c d => (op.intCorners? a b c d).getD (op.floatCorners l r)
  | _, _ => op.floatCorners l r

def divisionByZero : Operand → Noted Value
  | .int _ => .warned (.bool false) .divisionByZero
  | .float _ => .warned (.bool false) .divisionByFloatZero
  | _ => .warned (.any .value) .maybeDivisionByZero

def onOperands (op : ArithmeticOp) (l r : Operand) : Noted Value :=
  if op = div && r.mayBeZero then divisionByZero r
  else
    match l, r with
    | .unknown, _ | _, .unknown => .quiet (.any .value)
    | .int a, .int b => .quiet (op.intResult a b)
    | .int a, .float y => .quiet (.float (op.onFloats (.ofInt a.toInt) y))
    | .float x, .int b => .quiet (.float (op.onFloats x (.ofInt b.toInt)))
    | .float x, .float y => .quiet (.float (op.onFloats x y))
    | .anyFloat, _ | _, .anyFloat => .quiet (.any .float)
    | l, r =>
      match l.range?, r.range? with
      | some l, some r => .quiet (op.rangeResult l r)
      | _, _ => .quiet (.any .value)

-- Two arrays can be added and nothing else. Where an operand only may be an array, nothing is said.
def onArrays (op : ArithmeticOp) (left right : Value) : Noted Value :=
  if left.isArrayLike && right.isArrayLike then
    if op = add then .quiet (.any .array)
    else .warned (.any .value) (.unsupportedOperands left op right)
  else if left.mayBeArray && right.mayBeArray then .quiet (.any .value)
  else .warned (.any .value) (.unsupportedOperands left op right)

-- The result of an operation that makes no new array.
def apply (op : ArithmeticOp) (left right : Value) : Noted Value :=
  if left.isArrayLike || right.isArrayLike then op.onArrays left right
  else if left.isObjectLike || right.isObjectLike then
    .warned (.any .value) (.objectToIntegerBy "arithmetic operation")
  else op.onOperands (.ofValue left) (.ofValue right)

end ArithmeticOp

end AbsEval
