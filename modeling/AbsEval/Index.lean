import AbsEval.Conversion.Scalar
import AbsEval.Eval.Basic

namespace AbsEval

inductive Key where
  | int (n : Int32)
  | str (text : String)
deriving DecidableEq

namespace Key

def name : Key → String
  | int n => integerText n.toInt
  | str text => text

def int? : Key → Option Int32
  | int n => some n
  | str _ => none

end Key

-- The integer that a text spells, if it spells it as it would be written: no leading zeros, no sign
-- on zero.
def canonicalInt? (text : String) : Option Int32 :=
  let (negative, digits) :=
    match text.toList with
    | '-' :: digits => (true, digits)
    | digits => (false, digits)
  match digits with
  | ['0'] => if negative then none else some 0
  | d :: _ =>
    if d ≠ '0' && digits.all Char.isDigit then
      int32? (withSign negative (ofDigits digits))
    else none
  | [] => none

-- What one value of an index comes to.
inductive Candidate where
  | key (k : Key)
  | unknown (integer : Bool) (maybeIllegal : Bool)
  | illegal
deriving DecidableEq

namespace Candidate

def ofInt? (n : Option Int32) : Candidate :=
  n.elim (unknown true false) fun n => key (.int n)

def ofValue (options : Options) : Value → Candidate
  | .null => key (.str "")
  | .bool b => key (.int b.toInt32)
  | .int n => key (.int n)
  | .long n => ofInt? (int32? n.toInt)
  | .float x => ofInt? x.toInt32?
  | .resource id => ofInt? (int32? id.toNat)
  | .str text =>
    match canonicalInt? text with
    | some n => if options.canonicalIntegerKeys then key (.int n) else key (.str text)
    | none => key (.str text)
  | .array _ | .object .. | .any .array | .any .object | .any .compound => illegal
  | .intRange _ | .longRange _ | .floatRange _ => ofInt? none
  | .any .boolean | .any .integer | .any .longint | .any .float | .any .resource => ofInt? none
  | .any kind => unknown false (Family.intersect kind.families [.array, .object])
  | .marker _ => illegal

def key? : Candidate → Option Key
  | key k => some k
  | _ => none

-- The candidate names a key.
def isConcrete : Candidate → Bool
  | unknown .. => false
  | _ => true

-- The candidate can only be an integer key.
def isInteger : Candidate → Bool
  | key (.int _) => true
  | unknown integer _ => integer
  | _ => false

def isLegal : Candidate → Bool
  | key _ => true
  | unknown _ maybeIllegal => !maybeIllegal
  | illegal => false

end Candidate

-- An index after all its values were looked at: the keys it names, and what holds of every value.
structure IndexClass where
  keys : List Key
  isConcrete : Bool
  isInteger : Bool
  isLegal : Bool
deriving DecidableEq

namespace IndexClass

-- Keys of the same name are one.
def ofCandidates (candidates : List Candidate) : IndexClass where
  keys := (candidates.filterMap Candidate.key?).eraseDupsBy fun a b => a.name == b.name
  isConcrete := candidates.all Candidate.isConcrete
  isInteger := candidates.all Candidate.isInteger
  isLegal := candidates.all Candidate.isLegal

def intKeys (c : IndexClass) : List Int32 :=
  c.keys.filterMap Key.int?

def selector (c : IndexClass) : Selector :=
  if c.isConcrete then .ofList (c.keys.map Key.name) else .any

-- The three properties as a number, one bit each.
def flags (c : IndexClass) : Nat :=
  c.isConcrete.toNat + 2 * c.isInteger.toNat + 4 * c.isLegal.toNat

end IndexClass

namespace Eval

-- Illegal values are reported and name no key.
def candidate (illegal : Warning) (v : Value) : Eval Candidate := do
  expectData v
  let c := Candidate.ofValue (← read) v
  if c = .illegal then warn illegal
  pure c

def classify (illegal : Warning) (index : Entry) : Eval IndexClass := do
  pure (.ofCandidates (← index.values.mapM (candidate illegal)))

def index (e : Entry) : Eval IndexClass :=
  classify .illegalOffset e

def selectorOf (e : Entry) : Eval Selector := do
  pure (← index e).selector

end Eval

end AbsEval
