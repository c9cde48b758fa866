import AbsEval.Double.Rounding

namespace AbsEval

def withSign (negative : Bool) (magnitude : Nat) : Int :=
  if negative then -(magnitude : Int) else magnitude

-- What tells one NaN from another beside its sign. Zero would make it an infinity.
def Double.IsPayload (payload : Nat) : Prop :=
  0 < payload ∧ payload < 2 ^ 52

-- IEEE 754 binary64 numbers. The two zeros are `finite false 0` and `finite true 0`, and NaN comes
-- with its sign and payload, so equality here is equality of representations.
inductive Double where
  | notANumber (negative : Bool) (payload : Nat) (fits : Double.IsPayload payload)
  | infinite (negative : Bool)
  | finite (negative : Bool) (units : Nat) (fits : Double.Representable units)
deriving DecidableEq

namespace Double

-- The NaN that arithmetic gives, whatever NaN it is given.
def nan : Double :=
  notANumber false (2 ^ 51) ⟨by decide, by decide⟩

-- The double nearest to `num / den` units, infinite from 2^1024 on.
def ofUnits (negative : Bool) (num den : Nat) : Double :=
  if h : roundUnits num den < unitLimit then
    finite negative (roundUnits num den) (representable_roundUnits h)
  else
    infinite negative

def zero : Double :=
  ofUnits false 0 1

def ofInt (n : Int) : Double :=
  ofUnits (n < 0) (n.natAbs * unitsPerOne) 1

def isNaN : Double → Bool
  | notANumber .. => true
  | _ => false

-- Where a number stands on the line, counted in units. The infinities stand right behind the
-- finite numbers and the two zeros share a place. NaN has none.
def position? : Double → Option Int
  | notANumber .. => none
  | infinite negative => some (withSign negative unitLimit)
  | finite negative units _ => some (withSign negative units)

-- Compares places on the line. NaN compares false with everything.
def compares (relation : Int → Int → Bool) (x y : Double) : Bool :=
  match x.position?, y.position? with
  | some a, some b => relation a b
  | _, _ => false

instance : LE Double :=
  ⟨fun x y => compares (fun a b => a ≤ b) x y = true⟩

instance : LT Double :=
  ⟨fun x y => compares (fun a b => a < b) x y = true⟩

instance : DecidableLE Double :=
  fun x y => inferInstanceAs (Decidable (compares _ x y = true))

instance : DecidableLT Double :=
  fun x y => inferInstanceAs (Decidable (compares _ x y = true))

-- Numeric equality: the zeros are equal, NaN is not equal to itself.
def numEq (x y : Double) : Bool :=
  compares (fun a b => a == b) x y

def isZero (x : Double) : Bool :=
  x.position? == some 0

-- The lesser operand, the first where they are equal.
def lesser (x y : Double) : Double :=
  if x ≤ y then x else y

-- The greater operand, the first where they are equal.
def greater (x y : Double) : Double :=
  if y ≤ x then x else y

-- Only the sign changes, that of NaN too.
def neg : Double → Double
  | notANumber negative payload fits => notANumber (!negative) payload fits
  | infinite negative => infinite (!negative)
  | finite negative units fits => finite (!negative) units fits

-- An exact sum of zero is negative only if both operands are.
def add : Double → Double → Double
  | notANumber .., _ => nan
  | _, notANumber .. => nan
  | infinite s, infinite t => if s = t then infinite s else nan
  | infinite s, finite .. => infinite s
  | finite .., infinite t => infinite t
  | finite s a _, finite t b _ =>
    let sum := withSign s a + withSign t b
    ofUnits (if sum = 0 then s && t else sum < 0) sum.natAbs 1

def mul : Double → Double → Double
  | notANumber .., _ => nan
  | _, notANumber .. => nan
  | infinite s, infinite t => infinite (s != t)
  | infinite s, finite t b _ => if b = 0 then nan else infinite (s != t)
  | finite s a _, infinite t => if a = 0 then nan else infinite (s != t)
  | finite s a _, finite t b _ => ofUnits (s != t) (a * b) unitsPerOne

def div : Double → Double → Double
  | notANumber .., _ => nan
  | _, notANumber .. => nan
  | infinite _, infinite _ => nan
  | infinite s, finite t _ _ => infinite (s != t)
  | finite s _ _, infinite t => ofUnits (s != t) 0 1
  | finite s a _, finite t b _ =>
    if b ≠ 0 then ofUnits (s != t) (a * unitsPerOne) b
    else if a = 0 then nan
    else infinite (s != t)

instance : Neg Double := ⟨neg⟩
instance : Add Double := ⟨add⟩
instance : Sub Double := ⟨fun x y => x + -y⟩
instance : Mul Double := ⟨mul⟩
instance : Div Double := ⟨div⟩

-- The integer part, toward zero.
def truncate? : Double → Option Int
  | finite negative units _ => some (withSign negative (units / unitsPerOne))
  | _ => none

end Double

end AbsEval
