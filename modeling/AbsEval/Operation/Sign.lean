import AbsEval.Conversion.Range

namespace AbsEval

-- Operators and casts that make a number of one value. Markers are no operands, they are rejected
-- before and count as unknown here.

namespace Value

section Width

variable {ω : Type} [LE ω] [Complement ω] [Word ω]

-- The integer, or the float nearest to it if it is beyond the width.
def ofWord (integer : ω → Value) (n : Int) : Value :=
  (word? n).elim (float (.ofInt n)) integer

-- Negated bounds change places. If an end has no negative of its width, both become floats.
def negatedRange (integers : ω → ω → Value) (range : Interval ω) : Value :=
  wordsBetween integers (-Word.toInt range.stop) (-Word.toInt range.start)
    (floatsBetween (.ofInt (-Word.toInt range.stop)) (.ofInt (-Word.toInt range.start)))

end Width

def ofInteger (n : Int) : Value :=
  ofWord int n

def plus (v : Value) : Noted Value :=
  match v with
  | null => .quiet (int 0)
  | bool b => .quiet (int b.toInt32)
  | int _ | long _ | float _ | intRange _ | longRange _ | floatRange _ => .quiet v
  | any .integer | any .longint | any .float => .quiet v
  | str text => .quiet (Numeral.toValue text)
  | resource id => .quiet ((int32? id.toNat).elim (any .integer) int)
  | array _ | any .array => .warned (any .value) (.unsupported "Unary plus of array")
  | object .. | any .object => .warned (any .integer) (.objectToIntegerBy "unary plus operation")
  | any .boolean => .quiet (intsBetween 0 1)
  | any .resource => .quiet (any .integer)
  | any .string | any .scalar | any .compound | any .value => .quiet (any .value)
  | marker _ => .quiet (any .value)

-- Negates a number that is known.
def negatedNumber : Value → Value
  | int n => ofInteger (-n.toInt)
  | float x => float (-x)
  | v => v

def minus (v : Value) : Noted Value :=
  match v with
  | null => .quiet (int 0)
  | bool b => .quiet (ofInteger (-b.toInt32.toInt))
  | int _ | float _ => .quiet v.negatedNumber
  | long n => .quiet (ofWord long (-n.toInt))
  | str text => .quiet (Numeral.toValue text).negatedNumber
  | resource id => .quiet ((int32? id.toNat).elim (any .integer) fun n => ofInteger (-n.toInt))
  | intRange range => .quiet (negatedRange intsBetween range)
  | longRange range => .quiet (negatedRange longsBetween range)
  | floatRange range => .quiet (floatsBetween (-range.stop) (-range.start))
  | array _ | any .array => .warned (any .value) (.unsupported "Unary minus of array")
  | object .. | any .object => .warned (any .integer) (.objectToIntegerBy "unary minus operation")
  | any .boolean => .quiet (intsBetween (-1) 0)
  | any .integer | any .resource => .quiet (any .integer)
  | any .longint => .quiet (any .longint)
  | any .float => .quiet (any .float)
  | any .string | any .scalar | any .compound | any .value => .quiet (any .value)
  | marker _ => .quiet (any .value)

-- Complementing all bits turns the order around.
def complement (v : Value) : Noted Value :=
  match v with
  | int n => .quiet (int (~~~n))
  | long n => .quiet (long (~~~n))
  | float _ | floatRange _ =>
    .quiet (v.intBounds?.elim (any .integer) fun range =>
      intsBetween (~~~range.stop) (~~~range.start))
  | intRange range => .quiet (intsBetween (~~~range.stop) (~~~range.start))
  | longRange range => .quiet (longsBetween (~~~range.stop) (~~~range.start))
  | str _ | any .string => .quiet (any .string)
  | bool _ | any .boolean => .warned (any .value) (.unsupported "Bit negation of boolean value")
  | array _ | object .. | any .array | any .object | any .compound =>
    .warned (any .value) (.unsupported "Bit negation of compound value")
  | resource _ | any .resource =>
    .warned (any .value) (.unsupported "Bit negation of resource reference")
  | null => .warned (any .value) (.unsupported "Bit negation of null value")
  | any .integer | any .float => .quiet (any .integer)
  | any .longint => .quiet (any .longint)
  | any .scalar | any .value => .quiet (any .value)
  | marker _ => .quiet (any .value)

def castToInteger (store : Store) (v : Value) : Noted Value :=
  match v.integer? store, v with
  | some n, _ => .quiet (int n)
  | none, object .. | none, any .object => .warned (any .integer) .objectToInteger
  | none, any .boolean => .quiet (intsBetween 0 1)
  | none, _ =>
    .quiet (v.intBounds?.elim (any .integer) fun range => intsBetween range.start range.stop)

def castToFloat (store : Store) (v : Value) : Noted Value :=
  match v.float? store, v with
  | some x, _ => .quiet (float x)
  | none, object .. | none, any .object => .warned (any .float) .objectToFloat
  | none, any .boolean => .quiet (floatsBetween (.ofInt 0) (.ofInt 1))
  | none, _ =>
    .quiet (v.floatBounds?.elim (any .float) fun range => floatsBetween range.start range.stop)

end Value

end AbsEval
