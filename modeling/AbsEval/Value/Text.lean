import AbsEval.Double.Text
import AbsEval.Text.Quoted
import AbsEval.Value.Basic

namespace AbsEval

def Marker.kindName : Marker → String
  | function _ => "function"
  | lambda _ => "lambda function"
  | type _ => "type"
  | special _ => "special value"

def Marker.display : Marker → String
  | function name => "function " ++ name
  | lambda index => "lambda#" ++ integerText index.toNat
  | type className => "type " ++ className
  | special tag => "special " ++ tag

-- A float on its own shows the fewest digits that read back and always a point or an exponent.
def floatStyle : Double.Style where
  places := none
  positional e := -4 ≤ e && e < 16
  wholeTail := ".0"
  exponentText e := "e" ++ integerText e
  signedZero := true
  nanText := "NaN"
  infinityText := "inf"

-- An end of an interval shows the fewest digits that read back, never an exponent.
def boundStyle : Double.Style where
  places := none
  positional _ := true
  wholeTail := ""
  exponentText _ := ""
  signedZero := true
  nanText := "NaN"
  infinityText := "inf"

def Interval.display {α : Type} [LE α] (range : Interval α) (endText : α → String) : String :=
  "[" ++ endText range.start ++ ", " ++ endText range.stop ++ "]"

namespace Value

-- What a value is called in messages.
def kindName : Value → String
  | null => "null"
  | bool _ => "boolean"
  | int _ => "integer"
  | long _ => "long integer"
  | float _ => "float"
  | str _ => "string"
  | array _ => "array"
  | object .. => "object"
  | resource _ => "resource"
  | intRange _ => "integer interval"
  | longRange _ => "long integer interval"
  | floatRange _ => "float interval"
  | any kind => kind.name
  | marker m => m.kindName

def display : Value → String
  | null => "null"
  | bool b => if b then "true" else "false"
  | int n => integerText n.toInt
  | long n => integerText n.toInt ++ "L"
  | float x => x.text floatStyle
  | str text => Text.quoted text
  | array id => "array#" ++ integerText id.toNat
  | object id className => className ++ "#" ++ integerText id.toNat
  | resource id => "resource#" ++ integerText id.toNat
  | intRange range => "int" ++ range.display fun n => integerText n.toInt
  | longRange range => "long" ++ range.display fun n => integerText n.toInt
  | floatRange range => "float" ++ range.display (Double.text boundStyle)
  | any kind => kind.name
  | marker m => m.display

end Value

end AbsEval
