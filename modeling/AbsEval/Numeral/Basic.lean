import AbsEval.Numeral.Literal
import AbsEval.Text.Blank
import AbsEval.Word

namespace AbsEval

-- What the longest numeric beginning of a text denotes. An integer beyond 32 bits is kept as a
-- float.
inductive Numeral where
  | none
  | int (n : Int32) (hex : Bool)
  | float (x : Double) (beyondInt : Bool) (hex : Bool)
deriving DecidableEq

namespace Numeral

-- There is a number, of the type in which it is written.
def isExact : Numeral → Bool
  | none => false
  | int .. => true
  | float _ beyondInt _ => !beyondInt

-- No number counts as the integer zero.
def isInteger : Numeral → Bool
  | float .. => false
  | _ => true

def isHex : Numeral → Bool
  | none => false
  | int _ hex => hex
  | float _ _ hex => hex

def toInt32 : Numeral → Int32
  | int n _ => n
  | _ => 0

def toDouble : Numeral → Double
  | none => .zero
  | int n _ => .ofInt n.toInt
  | float x _ _ => x

-- A literal with a point or an exponent is a float.
def ofLiteral (l : Literal) : Numeral :=
  if l.isInteger then (int32? l.integer).elim (float l.double true false) (int · false)
  else float l.double false false

def ofDecimal (cs : List Char) : Numeral :=
  (Literal.split? cs).elim none fun (l, _) => ofLiteral l

def hexDigit? (c : Char) : Option Nat :=
  if c.isDigit then some (c.toNat - '0'.toNat)
  else if 'a' ≤ c && c ≤ 'f' then some (c.toNat - 'a'.toNat + 10)
  else if 'A' ≤ c && c ≤ 'F' then some (c.toNat - 'A'.toNat + 10)
  else Option.none

-- The values of the leading hexadecimal digits.
def hexDigits (cs : List Char) : List Nat :=
  (cs.takeWhile fun c => (hexDigit? c).isSome).filterMap hexDigit?

-- Reads on after the digits of `value`. Once the number is beyond 32 bits, the digits that follow
-- are added in floating point, one by one.
def hexFrom (value : Nat) : List Nat → Numeral
  | [] => (int32? value).elim none (int · true)
  | d :: ds =>
    if value * 16 + d < 2 ^ 31 then hexFrom (value * 16 + d) ds
    else
      let start := Double.ofInt (value * 16 + d : Nat)
      float (ds.foldl (fun x d => x * .ofInt 16 + .ofInt d) start) true true

-- The digits after `0x`. Without any, the number is the zero in front of the `x`.
def ofHex (cs : List Char) : Numeral :=
  if (hexDigits cs).isEmpty then int 0 false else hexFrom 0 (hexDigits cs)

-- The number at the beginning of a text, after blanks. Hexadecimal is read only where it is
-- allowed.
def ofText (allowHex : Bool) (text : String) : Numeral :=
  let cs := text.toList.dropWhile Text.isBlank
  match allowHex, cs with
  | true, '0' :: 'x' :: c :: cs => ofHex (c :: cs)
  | true, '0' :: 'X' :: c :: cs => ofHex (c :: cs)
  | _, _ => ofDecimal cs

end Numeral

end AbsEval
