import AbsEval.Conversion.Range

namespace AbsEval

namespace CountOp

section Width

variable {ω : Type} [LE ω] [Complement ω] [Word ω]

-- Counts an integer, which becomes a float where it leaves its width.
def countWord (op : CountOp) (integer : ω → Value) (n : ω) : Value :=
  (word? (Word.toInt n + op.amount)).elim (.float (.ofInt (Word.toInt n) + .ofInt op.amount))
    integer

-- Moves bounds by one. If an end leaves its width, both become floats.
def shiftRange (op : CountOp) (integers : ω → ω → Value) (range : Interval ω) : Value :=
  .wordsBetween integers (Word.toInt range.start + op.amount) (Word.toInt range.stop + op.amount)
    (.floatsBetween (.ofInt (Word.toInt range.start) + .ofInt op.amount)
      (.ofInt (Word.toInt range.stop) + .ofInt op.amount))

end Width

-- The value after counting up or down by one. What cannot be counted stays as it is, and the
-- letters a text counts through are not followed.
def apply (op : CountOp) (v : Value) : Value :=
  match v with
  | .int n => op.countWord .int n
  | .long n => op.countWord .long n
  | .float x => .float (x + .ofInt op.amount)
  | .intRange range => op.shiftRange .intsBetween range
  | .longRange range => op.shiftRange .longsBetween range
  | .floatRange range =>
    .floatsBetween (range.start + .ofInt op.amount) (range.stop + .ofInt op.amount)
  | .str _ | .any .string =>
    match op with
    | increment => .any .string
    | decrement => v
  | .null =>
    match op with
    | increment => .int 1
    | decrement => v
  | .any .integer | .any .longint => .any .value
  | _ => v

end CountOp

end AbsEval
