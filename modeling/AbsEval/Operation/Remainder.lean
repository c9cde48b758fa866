import AbsEval.Conversion.Range

namespace AbsEval.Remainder

-- The integers an operand may be.
inductive Operand where
  | point (n : Int32)
  | range (low high : Int32)
  | unknown

def Operand.ofInteger? (n : Option Int32) : Operand :=
  n.elim unknown point

def operand (store : Store) (v : Value) : Noted Operand :=
  match v with
  | .null | .bool _ | .int _ | .float _ | .str _ | .resource _ | .array _ =>
    .quiet (.ofInteger? (v.integer? store))
  | .intRange _ | .floatRange _ =>
    .quiet (v.intBounds?.elim .unknown fun bounds => .range bounds.start bounds.stop)
  | .any .boolean | .any .array => .quiet (.range 0 1)
  | .any .integer => .quiet (.range Int32.minValue Int32.maxValue)
  | .object .. | .any .object => .warned .unknown (.objectToIntegerBy "modulo operation")
  | _ => .quiet .unknown

-- The least and the greatest magnitude of a divisor that is never zero.
def magnitudes? : Operand → Option (Int × Int)
  | .point n => if n = 0 then none else some (n.toInt.natAbs, n.toInt.natAbs)
  | .range low high =>
    if 0 < low ∨ high < 0 then
      some (min low.toInt.natAbs high.toInt.natAbs, max low.toInt.natAbs high.toInt.natAbs)
    else none
  | .unknown => none

def integersBetween (low high : Int) : Value :=
  match int32? low, int32? high with
  | some low, some high => .intsBetween low high
  | _, _ => .any .integer

-- Remainders take the sign of the dividend and stay below the divisor in magnitude. Dividends that
-- are smaller than every divisor are their own remainders.
def bounds (low high least greatest : Int) : Value :=
  if low.natAbs < least ∧ high.natAbs < least then integersBetween low high
  else
    integersBetween (if low < 0 then -(min (greatest - 1) (-low)) else 0)
      (if 0 < high then min (greatest - 1) high else 0)

def ofOperands (dividend divisor : Operand) : Noted Value :=
  match magnitudes? divisor with
  | none =>
    match divisor with
    | .point _ => .warned (.bool false) .moduloByZero
    | _ => .warned (.any .value) .maybeModuloByZero
  | some (least, greatest) =>
    match dividend, divisor with
    | .point n, .point d => .quiet (.int (n % d))
    | .point n, _ => .quiet (bounds n.toInt n.toInt least greatest)
    | .range low high, _ => .quiet (bounds low.toInt high.toInt least greatest)
    | .unknown, _ =>
      .quiet (bounds Int32.minValue.toInt Int32.maxValue.toInt least greatest)

def apply (store : Store) (left right : Value) : Noted Value :=
  let dividend := operand store left
  let divisor := operand store right
  let remainder := ofOperands dividend.result divisor.result
  ⟨remainder.result, dividend.warnings ++ divisor.warnings ++ remainder.warnings⟩

end AbsEval.Remainder
