import AbsEval.Numeral.Basic
import AbsEval.Report
import AbsEval.Store.Basic

namespace AbsEval

-- The integer part, if it fits in 32 bits.
def Double.toInt32? (x : Double) : Option Int32 :=
  x.truncate?.bind int32?

-- The integer part, if it fits in 64 bits.
def Double.toInt64? (x : Double) : Option Int64 :=
  x.truncate?.bind int64?

-- A float in a text has at most 15 significant digits.
def Double.textStyle : Double.Style where
  places := some 15
  positional e := -5 < e && e < 15
  wholeTail := ""
  exponentText e :=
    (if e < 0 then "E-" else "E+") ++ (if e.natAbs < 10 then "0" else "") ++ integerText e.natAbs
  signedZero := false
  nanText := "NAN"
  infinityText := "INF"

namespace Numeral

-- The number at the beginning of a text, if it is a 32-bit integer.
def readInt? (text : String) : Option Int32 :=
  let numeral := ofText false text
  if numeral.isExact && numeral.isInteger then some numeral.toInt32 else Option.none

-- The number at the beginning of a text.
def readDouble? (text : String) : Option Double :=
  let numeral := ofText false text
  if numeral.isExact || !numeral.isInteger then some numeral.toDouble else Option.none

-- A text as an integer, zero without a number, cut off after the point.
def toInteger? (text : String) : Option Int32 :=
  let numeral := ofText false text
  if numeral.isInteger then some numeral.toInt32 else numeral.toDouble.toInt32?

-- A text as a float, zero without a number.
def toFloat (text : String) : Double :=
  (ofText false text).toDouble

-- A text as a number, an integer if it is written so.
def toValue (text : String) : Value :=
  let numeral := ofText true text
  if numeral.isInteger then .int numeral.toInt32 else .float numeral.toDouble

end Numeral

def Store.isEmptyArray (store : Store) (id : UInt32) : Bool :=
  (store.members.get? (.array id)).all fun members => members.keys.isEmpty

-- The truth of a number between bounds.
def Interval.truth? {α : Type} [LE α] [DecidableLE α] [Bound α] (range : Interval α) :
    Option Bool :=
  if range.isZero then some false
  else if range.containsZero then none
  else some true

namespace Value

-- Whether a value counts as true. There is no answer if it may be either.
def truth? (store : Store) : Value → Option Bool
  | null => some false
  | bool b => some b
  | int n => some (n ≠ 0)
  | long n => some (n ≠ 0)
  | float x => some (!x.isZero)
  | str text => some (text ≠ "" && text ≠ "0")
  | array id => some (!store.isEmptyArray id)
  | object .. | resource _ | any .object | any .resource => some true
  | intRange range => range.truth?
  | longRange range => range.truth?
  | floatRange range => range.truth?
  | any _ => none
  | marker _ => none

-- A value as an integer, if it has a single one.
def integer? (store : Store) : Value → Option Int32
  | null => some 0
  | bool b => some b.toInt32
  | int n => some n
  | long n => int32? n.toInt
  | float x => x.toInt32?
  | str text => Numeral.toInteger? text
  | array id => some (!store.isEmptyArray id).toInt32
  | resource id => int32? id.toNat
  | _ => none

-- A value as a float, if it has a single one.
def float? (store : Store) : Value → Option Double
  | null => some .zero
  | bool b => some (.ofInt b.toInt32.toInt)
  | int n => some (.ofInt n.toInt)
  | long n => some (.ofInt n.toInt)
  | float x => some x
  | str text => some (Numeral.toFloat text)
  | array id => some (.ofInt (!store.isEmptyArray id).toInt32.toInt)
  | resource id => some (.ofInt id.toNat)
  | _ => none

-- A value as a text, if it has a single one.
def text? : Value → Option String
  | null => some ""
  | bool b => some (if b then "1" else "")
  | int n => some (integerText n.toInt)
  | long n => some (integerText n.toInt)
  | float x => some (x.text Double.textStyle)
  | str text => some text
  | array _ | any .array => some "Array"
  | resource id => some ("Resource id #" ++ integerText id.toNat)
  | _ => none

def toBoolean (store : Store) (v : Value) : Except Fault (Option Bool) :=
  v.whenData (v.truth? store)

def toInteger (store : Store) (v : Value) : Except Fault (Option Int32) :=
  v.whenData (v.integer? store)

def toFloat (store : Store) (v : Value) : Except Fault (Option Double) :=
  v.whenData (v.float? store)

def toText (v : Value) : Except Fault (Option String) :=
  v.whenData v.text?

end Value

end AbsEval
