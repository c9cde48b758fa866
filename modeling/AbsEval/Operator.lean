namespace AbsEval

inductive ArithmeticOp where
  | add
  | sub
  | mul
  | div
deriving DecidableEq

inductive BitOp where
  | and
  | or
  | xor
  | shiftLeft
  | shiftRight
deriving DecidableEq

-- Comparisons that convert their operands to a common type first.
inductive CompareOp where
  | equal
  | notEqual
  | less
  | lessEq
  | greater
  | greaterEq
deriving DecidableEq

-- Comparisons of values together with their types.
inductive IdentityOp where
  | identical
  | notIdentical
deriving DecidableEq

inductive LogicOp where
  | and
  | or
  | xor
deriving DecidableEq

inductive BinaryOp where
  | arithmetic (op : ArithmeticOp)
  | modulo
  | concat
  | bitwise (op : BitOp)
  | compare (op : CompareOp)
  | identity (op : IdentityOp)
  | logic (op : LogicOp)
deriving DecidableEq

def ArithmeticOp.symbol : ArithmeticOp → String
  | add => "+"
  | sub => "-"
  | mul => "*"
  | div => "/"

def BitOp.symbol : BitOp → String
  | and => "&"
  | or => "|"
  | xor => "^"
  | shiftLeft => "<<"
  | shiftRight => ">>"

def CompareOp.symbol : CompareOp → String
  | equal => "=="
  | notEqual => "!="
  | less => "<"
  | lessEq => "<="
  | greater => ">"
  | greaterEq => ">="

def IdentityOp.symbol : IdentityOp → String
  | identical => "==="
  | notIdentical => "!=="

def LogicOp.symbol : LogicOp → String
  | and => "&&"
  | or => "||"
  | xor => "xor"

def BinaryOp.symbol : BinaryOp → String
  | arithmetic op => op.symbol
  | modulo => "%"
  | concat => "."
  | bitwise op => op.symbol
  | compare op => op.symbol
  | identity op => op.symbol
  | logic op => op.symbol

inductive CastOp where
  | int8
  | int16
  | int32
  | int64
  | uint8
  | uint16
  | uint32
  | uint64
  | float
  | double
  | string
  | unicode
  | binary
  | bool
  | object
  | array
  | unset
deriving DecidableEq

inductive UnaryOp where
  | plus
  | minus
  | not
  | complement
  | cast (op : CastOp)
  | clone
  | print
  | silence
deriving DecidableEq

def CastOp.symbol : CastOp → String
  | int8 => "(int8)"
  | int16 => "(int16)"
  | int32 => "(int)"
  | int64 => "(int64)"
  | uint8 => "(uint8)"
  | uint16 => "(uint16)"
  | uint32 => "(uint32)"
  | uint64 => "(uint64)"
  | float => "(float)"
  | double => "(double)"
  | string => "(string)"
  | unicode => "(unicode)"
  | binary => "(binary)"
  | bool => "(bool)"
  | object => "(object)"
  | array => "(array)"
  | unset => "(unset)"

def UnaryOp.symbol : UnaryOp → String
  | plus => "+"
  | minus => "-"
  | not => "!"
  | complement => "~"
  | cast op => op.symbol
  | clone => "clone"
  | print => "print"
  | silence => "@"

inductive CountOp where
  | increment
  | decrement
deriving DecidableEq

def CountOp.symbol : CountOp → String
  | increment => "++"
  | decrement => "--"

-- What the operator adds.
def CountOp.amount : CountOp → Int
  | increment => 1
  | decrement => -1

end AbsEval
