import AbsEval.Conversion.Compound
import AbsEval.Eval.Basic
import AbsEval.Operation.Arithmetic
import AbsEval.Operation.Bitwise
import AbsEval.Operation.Comparison
import AbsEval.Operation.Concat
import AbsEval.Operation.Logic
import AbsEval.Operation.Remainder

namespace AbsEval

-- Markers that no binary operator takes. A lambda function gets as far as the operator.
def Value.isForeign : Value → Bool
  | marker (.lambda _) => false
  | marker _ => true
  | _ => false

namespace Eval

def rejectForeign (v : Value) : Eval Unit :=
  if v.isForeign then throw (.notAnExpression v.kindName) else pure ()

-- Operands of all operators but concatenation and logic. Long integers are not followed through
-- them.
def expectOperands (left right : Value) : Eval Unit := do
  expectData left
  expectData right
  if left.isLongLike || right.isLongLike then throw (.unsupported "long integer operands")

def identity (op : IdentityOp) (left right : Value) : Eval Value := do
  if (← read).warnFloatIdentity && left.comparesFloats right then warn .floatIdentity
  pure (.ofTruth? (op.holds? (left.same? right)))

def compare (op : CompareOp) (left right : Value) : Eval Value := do
  pure (.ofTruth? (← note (left.compare? (← getStore) op right)))

def arithmetic (op : ArithmeticOp) (left right : Value) : Eval Value := do
  match op, left, right with
  | .add, .array _, .array _ =>
    if (← read).materializeArrayUnion then update fun store => store.unionArrays left right
    else note (op.apply left right)
  | _, _, _ => note (op.apply left right)

def logic (op : LogicOp) (left right : Value) : Eval Value := do
  pure (.ofTruth? (← ofExcept (op.ofValues (← getStore) left right)))

def binary (left : Value) (op : BinaryOp) (right : Value) : Eval Value := do
  let left := left.normalized
  let right := right.normalized
  rejectForeign left
  rejectForeign right
  match op with
  | .concat => ofExcept (left.concat right)
  | .logic op => logic op left right
  | .identity op =>
    expectOperands left right
    identity op left right
  | .compare op =>
    expectOperands left right
    compare op left right
  | .arithmetic op =>
    expectOperands left right
    arithmetic op left right
  | .bitwise op =>
    expectOperands left right
    note (op.apply (← getStore) left right)
  | .modulo =>
    expectOperands left right
    note (Remainder.apply (← getStore) left right)

def entryToBoolean (e : Entry) : Eval Value := do
  pure (.ofTruth? (← ofExcept (e.truth (← getStore))))

def logicEntry (op : LogicOp) (left right : Entry) : Eval Value := do
  pure (.ofTruth? (← ofExcept (op.ofEntries (← getStore) left right)))

def entryToText (e : Entry) : Eval Entry := do
  collect (← ofExcept (Texts.ofEntry e)).toValues

def concatEntry (left right : Entry) : Eval Entry := do
  let l ← ofExcept (Texts.ofEntry left)
  let r ← ofExcept (Texts.ofEntry right)
  collect (l.append r).toValues

-- Every value of the one with every value of the other. Concatenation and logic look at whole
-- entries.
def binaryEntry (left : Entry) (op : BinaryOp) (right : Entry) : Eval Entry := do
  match op with
  | .concat => concatEntry left right
  | .logic op => pure (.single (← logicEntry op left right))
  | _ =>
    let pairs := left.values.flatMap fun l => right.values.map fun r => (l, r)
    collect (← pairs.mapM fun (l, r) => binary l op r)

end Eval

end AbsEval
