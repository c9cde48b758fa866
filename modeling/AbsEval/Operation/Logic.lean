import AbsEval.Operation.Comparison

namespace AbsEval

namespace LogicOp

-- Three-valued logic, where an operand without a truth may be either.
def combine (op : LogicOp) (left right : Option Bool) : Option Bool :=
  match op with
  | and =>
    match left, right with
    | some false, _ | _, some false => some false
    | some true, some true => some true
    | _, _ => none
  | or =>
    match left, right with
    | some true, _ | _, some true => some true
    | some false, some false => some false
    | _, _ => none
  | xor =>
    match left, right with
    | some l, some r => some (l != r)
    | _, _ => none

-- The left operand alone settles the result, and the right one is not looked at.
def settledBy : LogicOp → Option Bool → Bool
  | and, some false => true
  | or, some true => true
  | _, _ => false

end LogicOp

namespace Value

-- The truth of an operand. A lambda function has one that is not known here.
def operandTruth (store : Store) (v : Value) : Except Fault (Option Bool) :=
  match v with
  | marker (.lambda _) => .error (.unsupported "lambda function as a logical operand")
  | _ => v.toBoolean store

end Value

namespace Entry

-- The truth that all values of an entry share.
def sharedTruth? (truths : List (Option Bool)) : Option Bool :=
  if truths.all (· = some true) then some true
  else if truths.all (· = some false) then some false
  else none

def truth (store : Store) (e : Entry) : Except Fault (Option Bool) :=
  (e.values.mapM (Value.operandTruth store)).map sharedTruth?

end Entry

namespace LogicOp

-- Combines two truths that are found one after the other.
def evaluate (op : LogicOp) (left right : Except Fault (Option Bool)) :
    Except Fault (Option Bool) := do
  let l ← left
  if op.settledBy l then pure l else pure (op.combine l (← right))

def ofValues (op : LogicOp) (store : Store) (left right : Value) : Except Fault (Option Bool) :=
  op.evaluate (left.operandTruth store) (right.operandTruth store)

def ofEntries (op : LogicOp) (store : Store) (left right : Entry) : Except Fault (Option Bool) :=
  op.evaluate (left.truth store) (right.truth store)

end LogicOp

end AbsEval
