import AbsEval.Conversion.Compound
import AbsEval.Eval.Basic
import AbsEval.Operation.Concat
import AbsEval.Operation.Counting
import AbsEval.Operation.Comparison
import AbsEval.Operation.Sign

namespace AbsEval.Eval

def toObject (v : Value) : Eval Value := do
  expectData v
  update fun store => store.toObject v

def toArray (v : Value) : Eval Value := do
  expectData v
  update fun store => store.toArray v

def clone (v : Value) : Eval Value :=
  match v with
  | .object id className => update fun store => store.cloneObject id className
  | .any .object => pure (.any .object)
  | _ => note (.warned (.any .value) .cloneOfNonObject)

def cast (op : CastOp) (v : Value) : Eval Value := do
  match op with
  | .int32 => note (v.castToInteger (← getStore))
  | .float | .double => note (v.castToFloat (← getStore))
  | .string | .unicode => ofExcept v.asText
  | .bool => pure (.ofTruth? (v.truth? (← getStore)))
  | .object => toObject v
  | .array => toArray v
  | .unset => pure .null
  | .int8 | .int16 | .int64 | .uint8 | .uint16 | .uint32 | .uint64 | .binary =>
    throw (.unsupported (op.symbol ++ " cast"))

def unary (op : UnaryOp) (v : Value) : Eval Value := do
  let v := v.normalized
  expectData v
  match op with
  | .plus => note v.plus
  | .minus => note v.minus
  | .complement => note v.complement
  | .not => pure (.ofTruth? ((v.truth? (← getStore)).map not))
  | .cast op => cast op v
  | .clone => clone v
  | .print => pure (.bool false)
  | .silence => pure v

def unaryEntry (op : UnaryOp) (e : Entry) : Eval Entry :=
  forEntry e (unary op)

def count (op : CountOp) (v : Value) : Eval Value := do
  let v := v.normalized
  expectData v
  pure (op.apply v)

def countEntry (op : CountOp) (e : Entry) : Eval Entry :=
  forEntry e (count op)

end AbsEval.Eval
