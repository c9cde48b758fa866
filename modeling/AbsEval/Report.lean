import AbsEval.Operator
import AbsEval.Value.Text

namespace AbsEval

inductive Cause where
  | divisionByZero
  | objectToInteger
  | unsupportedOperands
  | floatIdentity
  | illegalOffset
  | cloneOfNonObject
deriving DecidableEq

def Cause.code : Cause → String
  | divisionByZero => "DIVISION_BY_ZERO"
  | objectToInteger => "OBJECT_CONVERTED_TO_INTEGER"
  | unsupportedOperands => "UNSUPPORTED_OPERAND_TYPES"
  | floatIdentity => "FLOATING_POINT_IDENTITY"
  | illegalOffset => "ILLEGAL_OFFSET_TYPE"
  | cloneOfNonObject => "CLONE_NON_OBJECT"

-- A suspicious operation. Evaluation goes on.
structure Warning where
  cause : Cause
  message : String
deriving DecidableEq

namespace Warning

def display (w : Warning) : String :=
  w.cause.code ++ ": " ++ w.message

def divisionByZero : Warning := ⟨.divisionByZero, "Division by zero"⟩

def divisionByFloatZero : Warning := ⟨.divisionByZero, "Division by floating-point zero"⟩

def maybeDivisionByZero : Warning :=
  ⟨.divisionByZero, "Division by any integer, possible division by zero"⟩

def moduloByZero : Warning := ⟨.divisionByZero, "Modulo by zero"⟩

def maybeModuloByZero : Warning :=
  ⟨.divisionByZero, "Modulo by any integer, possible modulo by zero"⟩

def objectToInteger : Warning := ⟨.objectToInteger, "Object cannot be converted to integer"⟩

def objectToFloat : Warning := ⟨.objectToInteger, "Object cannot be converted to float"⟩

def objectToIntegerBy (operation : String) : Warning :=
  ⟨.objectToInteger, "Object cannot be converted to integer by " ++ operation⟩

def unsupported (operation : String) : Warning :=
  ⟨.unsupportedOperands, "Unsupported operand types: " ++ operation⟩

def unsupportedOperands (left : Value) (op : ArithmeticOp) (right : Value) : Warning :=
  unsupported (left.kindName ++ " " ++ op.symbol ++ " " ++ right.kindName)

def floatIdentity : Warning :=
  ⟨.floatIdentity, "Comparing floating-point numbers directly for equality"⟩

def illegalOffset : Warning := ⟨.illegalOffset, "Illegal offset type"⟩

def illegalOffsetInLiteral : Warning :=
  ⟨.illegalOffset, "Possible illegal offset type in array initialization"⟩

def cloneOfNonObject : Warning := ⟨.cloneOfNonObject, "__clone method called on non-object"⟩

end Warning

-- Why an evaluation has no result.
inductive Fault where
  | notAnExpression (kindName : String)
  | unsupported (feature : String)
  | noValue
deriving DecidableEq

def Fault.message : Fault → String
  | notAnExpression kindName => kindName ++ " cannot be used as an expression value"
  | unsupported feature => feature ++ " is not supported"
  | noValue => "expression has no possible value"

instance {α : Type} [DecidableEq α] : DecidableEq (Except Fault α)
  | .ok a, .ok b => if h : a = b then isTrue (congrArg _ h) else isFalse (by simpa using h)
  | .error f, .error g => if h : f = g then isTrue (congrArg _ h) else isFalse (by simpa using h)
  | .ok _, .error _ => isFalse (by simp)
  | .error _, .ok _ => isFalse (by simp)

-- A result and the warnings raised on the way to it.
structure Noted (α : Type) where
  result : α
  warnings : List Warning
deriving DecidableEq

def Noted.quiet {α : Type} (result : α) : Noted α :=
  ⟨result, []⟩

def Noted.warned {α : Type} (result : α) (warning : Warning) : Noted α :=
  ⟨result, [warning]⟩

-- Markers are no data and fail where data is needed.
def Value.whenData {α : Type} (v : Value) (result : α) : Except Fault α :=
  if v.isMarker then .error (.notAnExpression v.kindName) else .ok result

end AbsEval
