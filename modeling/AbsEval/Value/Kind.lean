namespace AbsEval

-- The types a concrete value can have.
inductive Family where
  | null
  | boolean
  | integer
  | longint
  | float
  | string
  | array
  | object
  | resource
deriving DecidableEq

namespace Family

def numeric : List Family := [integer, longint, float]

def scalar : List Family := [boolean, integer, longint, float, string]

def compound : List Family := [array, object, resource]

def all : List Family := null :: scalar ++ compound

theorem mem_all (family : Family) : family ∈ all := by
  cases family <;> decide

-- One bit per family, in the order of their declaration.
def bit : Family → Nat
  | null => 1
  | boolean => 2
  | integer => 4
  | longint => 8
  | float => 16
  | string => 32
  | array => 64
  | object => 128
  | resource => 256

-- A set of families as a number.
def mask (families : List Family) : Nat :=
  families.foldl (fun bits family => bits ||| family.bit) 0

def intersect (left right : List Family) : Bool :=
  left.any (· ∈ right)

end Family

-- The classes of values that have an abstract value of their own.
inductive Kind where
  | value
  | scalar
  | compound
  | boolean
  | integer
  | longint
  | float
  | string
  | array
  | object
  | resource
deriving DecidableEq

namespace Kind

-- The next wider kind.
def parent? : Kind → Option Kind
  | value => none
  | scalar | compound => some value
  | boolean | integer | longint | float | string => some scalar
  | array | object | resource => some compound

-- A kind is within itself and within every wider kind. No chain of parents is longer than two.
def isA (kind ancestor : Kind) : Bool :=
  kind = ancestor || kind.parent? = some ancestor || kind.parent?.bind parent? = some ancestor

def name : Kind → String
  | value => "any value"
  | scalar => "any scalar"
  | compound => "any compound"
  | boolean => "any boolean"
  | integer => "any integer"
  | longint => "any long integer"
  | float => "any float"
  | string => "any string"
  | array => "any array"
  | object => "any object"
  | resource => "any resource"

def families : Kind → List Family
  | value => Family.all
  | scalar => Family.scalar
  | compound => Family.compound
  | boolean => [.boolean]
  | integer => [.integer]
  | longint => [.longint]
  | float => [.float]
  | string => [.string]
  | array => [.array]
  | object => [.object]
  | resource => [.resource]

end Kind

end AbsEval
