import AbsEval.Double.Decimal

namespace AbsEval

inductive Sign where
  | plus
  | minus
deriving DecidableEq

namespace Sign

def char : Sign → Char
  | plus => '+'
  | minus => '-'

-- A sign, if there is one, and the rest.
def split : List Char → Option Sign × List Char
  | '+' :: cs => (some plus, cs)
  | '-' :: cs => (some minus, cs)
  | cs => (none, cs)

def isMinus (sign : Option Sign) : Bool :=
  sign = some minus

def spelling (sign : Option Sign) : List Char :=
  (sign.map char).toList

theorem spelling_split (cs : List Char) : spelling (split cs).1 ++ (split cs).2 = cs := by
  unfold split
  split <;> simp [spelling, char]

end Sign

-- The leading decimal digits and the rest.
def splitDigits (cs : List Char) : List Char × List Char :=
  (cs.takeWhile Char.isDigit, cs.dropWhile Char.isDigit)

-- Decimal digits as a number.
def ofDigits (digits : List Char) : Nat :=
  Nat.ofDigitChars 10 digits 0

theorem splitDigits_append (cs : List Char) : (splitDigits cs).1 ++ (splitDigits cs).2 = cs :=
  List.takeWhile_append_dropWhile

-- The exponent of a decimal literal, with the letter that marks it.
structure ExponentPart where
  mark : Char
  sign : Option Sign
  digits : List Char
deriving DecidableEq

namespace ExponentPart

def value (e : ExponentPart) : Int :=
  withSign (Sign.isMinus e.sign) (ofDigits e.digits)

def spelling (e : Option ExponentPart) : List Char :=
  e.elim [] fun e => e.mark :: (Sign.spelling e.sign ++ e.digits)

-- An exponent, if there is one, and the rest. A mark without digits begins none.
def split : List Char → Option ExponentPart × List Char
  | [] => (none, [])
  | c :: cs =>
    let (sign, unsigned) := Sign.split cs
    let (digits, rest) := splitDigits unsigned
    if (c = 'e' ∨ c = 'E') ∧ digits ≠ [] then (some ⟨c, sign, digits⟩, rest) else (none, c :: cs)

theorem spelling_split (cs : List Char) : spelling (split cs).1 ++ (split cs).2 = cs := by
  cases cs with
  | nil => rfl
  | cons c cs =>
    unfold split
    dsimp only
    split
    · have hs := Sign.spelling_split cs
      have hd := splitDigits_append (Sign.split cs).2
      simp only [spelling, Option.elim_some, List.cons_append, List.append_assoc]
      rw [hd, hs]
    · rfl

end ExponentPart

-- A decimal literal in its parts. The fraction is there as soon as there is a point.
structure Literal where
  sign : Option Sign
  whole : List Char
  fraction : Option (List Char)
  exponent : Option ExponentPart
deriving DecidableEq

namespace Literal

def fractionSpelling (fraction : Option (List Char)) : List Char :=
  fraction.elim [] ('.' :: ·)

def splitFraction : List Char → Option (List Char) × List Char
  | '.' :: cs => (some (splitDigits cs).1, (splitDigits cs).2)
  | cs => (none, cs)

theorem spelling_splitFraction (cs : List Char) :
    fractionSpelling (splitFraction cs).1 ++ (splitFraction cs).2 = cs := by
  unfold splitFraction
  split
  · simp [fractionSpelling, splitDigits_append]
  · simp [fractionSpelling]

def spelling (l : Literal) : List Char :=
  Sign.spelling l.sign ++
    (l.whole ++ (fractionSpelling l.fraction ++ ExponentPart.spelling l.exponent))

-- All digits before the exponent.
def digits (l : Literal) : List Char :=
  l.whole ++ l.fraction.getD []

def isNegative (l : Literal) : Bool :=
  Sign.isMinus l.sign

-- The literal is written as an integer.
def isInteger (l : Literal) : Bool :=
  l.fraction.isNone && l.exponent.isNone

def integer (l : Literal) : Int :=
  withSign l.isNegative (ofDigits l.whole)

def decimal (l : Literal) : Decimal :=
  ⟨ofDigits l.digits, (l.exponent.map ExponentPart.value).getD 0 - (l.fraction.getD []).length⟩

def double (l : Literal) : Double :=
  Double.ofDecimal l.isNegative l.decimal

-- The longest literal at the beginning of a text, and the rest. There is none without a digit
-- before the exponent.
def split? (cs : List Char) : Option (Literal × List Char) :=
  let (sign, unsigned) := Sign.split cs
  let (whole, afterWhole) := splitDigits unsigned
  let (fraction, afterFraction) := splitFraction afterWhole
  let (exponent, rest) := ExponentPart.split afterFraction
  let l : Literal := ⟨sign, whole, fraction, exponent⟩
  if l.digits = [] then none else some (l, rest)

theorem spelling_append_of_split? {cs rest : List Char} {l : Literal}
    (h : split? cs = some (l, rest)) : l.spelling ++ rest = cs := by
  unfold split? at h
  dsimp only at h
  split at h
  · cases h
  · cases h
    have hs := Sign.spelling_split cs
    have hw := splitDigits_append (Sign.split cs).2
    have hf := spelling_splitFraction (splitDigits (Sign.split cs).2).2
    have he := ExponentPart.spelling_split (splitFraction (splitDigits (Sign.split cs).2).2).2
    simp only [spelling, List.append_assoc]
    rw [he, hf, hw, hs]

end Literal

end AbsEval
