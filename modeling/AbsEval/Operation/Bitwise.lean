import AbsEval.Conversion.Scalar

namespace AbsEval.BitOp

-- A shift uses the low five bits of its distance.
def onInts (op : BitOp) (a b : Int32) : Int32 :=
  match op with
  | and => a &&& b
  | or => a ||| b
  | xor => a ^^^ b
  | shiftLeft => a <<< b
  | shiftRight => a >>> b

-- An operand as an integer. Objects have none and are reported.
def operand? (store : Store) (v : Value) : Noted (Option Int32) :=
  match v with
  | .object .. | .any .object => .warned none (.objectToIntegerBy "bitwise operation")
  | _ => .quiet (v.integer? store)

-- Two texts are combined character by character, shifts apart.
def combinesTexts (op : BitOp) (left right : Value) : Bool :=
  (match op with
    | and | or | xor => true
    | shiftLeft | shiftRight => false) &&
  left.families = [.string] && right.families = [.string]

def apply (op : BitOp) (store : Store) (left right : Value) : Noted Value :=
  if op.combinesTexts left right then .quiet (.any .string)
  else
    let l := operand? store left
    let r := operand? store right
    let result : Value :=
      match l.result, r.result with
      | some a, some b => .int (op.onInts a b)
      | _, _ => .any .integer
    ⟨result, l.warnings ++ r.warnings⟩

end AbsEval.BitOp
