import AbsEval.Numeral.Basic
import Mathlib.Computability.RegularExpressions

namespace AbsEval

-- The parts of a number are what their places ask for.

structure ExponentPart.WellFormed (e : ExponentPart) : Prop where
  mark : e.mark = 'e' ∨ e.mark = 'E'
  nonempty : e.digits ≠ []
  digits : ∀ c ∈ e.digits, c.isDigit

structure Literal.WellFormed (l : Literal) : Prop where
  whole : ∀ c ∈ l.whole, c.isDigit
  fraction : ∀ ds ∈ l.fraction, ∀ c ∈ ds, c.isDigit
  exponent : ∀ e ∈ l.exponent, e.WellFormed
  nonempty : l.digits ≠ []

namespace Grammar

-- One of these characters.
def oneOf : List Char → RegularExpression Char
  | [] => 0
  | c :: cs => .char c + oneOf cs

def many (chars : List Char) : RegularExpression Char :=
  oneOf chars * (oneOf chars).star

def optional (r : RegularExpression Char) : RegularExpression Char :=
  1 + r

def digits : List Char :=
  ['0', '1', '2', '3', '4', '5', '6', '7', '8', '9']

def hexDigits : List Char :=
  digits ++ ['a', 'b', 'c', 'd', 'e', 'f', 'A', 'B', 'C', 'D', 'E', 'F']

def sign : RegularExpression Char :=
  optional (oneOf ['+', '-'])

def integer : RegularExpression Char :=
  sign * many digits

def mantissa : RegularExpression Char :=
  many digits * optional (oneOf ['.'] * (oneOf digits).star) + oneOf ['.'] * many digits

def exponent : RegularExpression Char :=
  optional (oneOf ['e', 'E'] * integer)

def decimal : RegularExpression Char :=
  sign * (mantissa * exponent)

def hexadecimal : RegularExpression Char :=
  oneOf ['0'] * (oneOf ['x', 'X'] * many hexDigits)

-- What counts as a number at the beginning of a text.
def numeral (allowHex : Bool) : RegularExpression Char :=
  if allowHex then hexadecimal + decimal else decimal

section Membership

variable {chars w : List Char} {r : RegularExpression Char}

theorem mem_oneOf : w ∈ (oneOf chars).matches' ↔ ∃ c ∈ chars, w = [c] := by
  induction chars with
  | nil => simp [oneOf, Language.notMem_zero]
  | cons c cs ih =>
    rw [oneOf, RegularExpression.matches'_add, Language.mem_add, ih, List.exists_mem_cons_iff]
    rfl

theorem mem_star_oneOf : w ∈ (oneOf chars).star.matches' ↔ ∀ c ∈ w, c ∈ chars := by
  rw [RegularExpression.matches'_star, Language.mem_kstar]
  constructor
  · rintro ⟨parts, rfl, hparts⟩ c hc
    obtain ⟨part, hpart, hc⟩ := List.mem_flatten.mp hc
    obtain ⟨d, hd, rfl⟩ := mem_oneOf.mp (hparts part hpart)
    rwa [List.mem_singleton.mp hc]
  · intro hw
    refine ⟨w.map ([·]), ?_, ?_⟩
    · rw [← List.flatMap_def, List.flatMap_singleton']
    · intro part hpart
      obtain ⟨c, hc, rfl⟩ := List.mem_map.mp hpart
      exact mem_oneOf.mpr ⟨c, hw c hc, rfl⟩

theorem mem_many : w ∈ (many chars).matches' ↔ w ≠ [] ∧ ∀ c ∈ w, c ∈ chars := by
  rw [many, RegularExpression.matches'_mul, Language.mem_mul]
  constructor
  · rintro ⟨first, hfirst, rest, hrest, rfl⟩
    obtain ⟨c, hc, rfl⟩ := mem_oneOf.mp hfirst
    rw [List.singleton_append]
    exact ⟨List.cons_ne_nil _ _, List.forall_mem_cons.mpr ⟨hc, mem_star_oneOf.mp hrest⟩⟩
  · rintro ⟨hne, hw⟩
    obtain ⟨c, rest, rfl⟩ := List.exists_cons_of_ne_nil hne
    obtain ⟨hc, hrest⟩ := List.forall_mem_cons.mp hw
    exact ⟨[c], mem_oneOf.mpr ⟨c, hc, rfl⟩, rest, mem_star_oneOf.mpr hrest, rfl⟩

theorem mem_optional : w ∈ (optional r).matches' ↔ w = [] ∨ w ∈ r.matches' :=
  Iff.rfl

theorem mem_oneOf_mul :
    w ∈ (oneOf chars * r).matches' ↔ ∃ c ∈ chars, ∃ rest ∈ r.matches', w = c :: rest := by
  rw [RegularExpression.matches'_mul, Language.mem_mul]
  constructor
  · rintro ⟨first, hfirst, rest, hrest, rfl⟩
    obtain ⟨c, hc, rfl⟩ := mem_oneOf.mp hfirst
    exact ⟨c, hc, rest, hrest, rfl⟩
  · rintro ⟨c, hc, rest, hrest, rfl⟩
    exact ⟨[c], mem_oneOf.mpr ⟨c, hc, rfl⟩, rest, hrest, rfl⟩

-- The characters of a list are checked one by one, not picked out of all there are.
theorem forall_of_all {p : Char → Prop} [DecidablePred p] (h : chars.all fun c => p c) :
    ∀ c ∈ chars, p c := fun c hc =>
  of_decide_eq_true (List.all_eq_true.mp h c hc)

theorem mem_of_between {low high c : Char}
    (hall : ∀ n ≤ high.toNat, low.toNat ≤ n → Char.ofNat n ∈ chars) (hlow : low.toNat ≤ c.toNat)
    (hhigh : c.toNat ≤ high.toNat) : c ∈ chars := by
  rw [← Char.ofNat_toNat c]
  exact hall c.toNat hhigh hlow

theorem mem_digits_iff {c : Char} : c ∈ digits ↔ c.isDigit := by
  constructor
  · exact forall_of_all (p := fun c => c.isDigit) (by decide) c
  · intro hc
    obtain ⟨hlow, hhigh⟩ := Char.isDigit_iff_toNat.mp hc
    exact mem_of_between (by decide) hlow hhigh

theorem mem_star_digits : w ∈ (oneOf digits).star.matches' ↔ ∀ c ∈ w, c.isDigit := by
  simp only [mem_star_oneOf, mem_digits_iff]

theorem mem_many_digits : w ∈ (many digits).matches' ↔ w ≠ [] ∧ ∀ c ∈ w, c.isDigit := by
  simp only [mem_many, mem_digits_iff]

theorem mem_sign : w ∈ sign.matches' ↔ ∃ s, Sign.spelling s = w := by
  rw [sign, mem_optional, mem_oneOf]
  constructor
  · rintro (rfl | ⟨c, hc, rfl⟩)
    · exact ⟨none, rfl⟩
    · rcases List.mem_pair.mp hc with rfl | rfl
      · exact ⟨some .plus, rfl⟩
      · exact ⟨some .minus, rfl⟩
  · rintro ⟨none | plus | minus, rfl⟩
    · exact .inl rfl
    · exact .inr ⟨'+', by decide, rfl⟩
    · exact .inr ⟨'-', by decide, rfl⟩

theorem mem_integer :
    w ∈ integer.matches' ↔
      ∃ s ds, ds ≠ [] ∧ (∀ c ∈ ds, c.isDigit) ∧ Sign.spelling s ++ ds = w := by
  rw [integer, RegularExpression.matches'_mul, Language.mem_mul]
  constructor
  · rintro ⟨v, hv, ds, hds, rfl⟩
    obtain ⟨s, rfl⟩ := mem_sign.mp hv
    obtain ⟨hne, hall⟩ := mem_many_digits.mp hds
    exact ⟨s, ds, hne, hall, rfl⟩
  · rintro ⟨s, ds, hne, hall, rfl⟩
    exact ⟨_, mem_sign.mpr ⟨s, rfl⟩, ds, mem_many_digits.mpr ⟨hne, hall⟩, rfl⟩

theorem mem_mantissa :
    w ∈ mantissa.matches' ↔
      ∃ whole fraction, (∀ c ∈ whole, c.isDigit) ∧ (∀ ds ∈ fraction, ∀ c ∈ ds, c.isDigit) ∧
        whole ++ fraction.getD [] ≠ [] ∧ whole ++ Literal.fractionSpelling fraction = w := by
  rw [mantissa, RegularExpression.matches'_add, Language.mem_add, RegularExpression.matches'_mul,
    Language.mem_mul]
  constructor
  · rintro (⟨whole, hwhole, v, hv, rfl⟩ | hw)
    · obtain ⟨hne, hwhole⟩ := mem_many_digits.mp hwhole
      have hne' : ∀ ds, whole ++ ds ≠ [] := fun ds h => hne (List.append_eq_nil_iff.mp h).1
      rcases mem_optional.mp hv with rfl | hv
      · exact ⟨whole, none, hwhole, by simp, hne' _, rfl⟩
      · obtain ⟨_, hpoint, ds, hds, rfl⟩ := mem_oneOf_mul.mp hv
        obtain rfl := List.mem_singleton.mp hpoint
        exact ⟨whole, some ds, hwhole, by simpa using mem_star_digits.mp hds, hne' _, rfl⟩
    · obtain ⟨_, hpoint, ds, hds, rfl⟩ := mem_oneOf_mul.mp hw
      obtain rfl := List.mem_singleton.mp hpoint
      obtain ⟨hne, hds⟩ := mem_many_digits.mp hds
      exact ⟨[], some ds, by simp, by simpa using hds, hne, rfl⟩
  · rintro ⟨whole, fraction, hwhole, hfraction, hne, rfl⟩
    by_cases hempty : whole = []
    · -- Without a digit before the point there is one after it.
      subst hempty
      cases fraction with
      | none => exact absurd rfl hne
      | some ds =>
        exact .inr (mem_oneOf_mul.mpr ⟨'.', List.mem_singleton_self _, ds,
          mem_many_digits.mpr ⟨hne, hfraction ds rfl⟩, rfl⟩)
    · refine .inl ⟨whole, mem_many_digits.mpr ⟨hempty, hwhole⟩, _, mem_optional.mpr ?_, rfl⟩
      cases fraction with
      | none => exact .inl rfl
      | some ds =>
        exact .inr (mem_oneOf_mul.mpr ⟨'.', List.mem_singleton_self _, ds,
          mem_star_digits.mpr (hfraction ds rfl), rfl⟩)

theorem mem_exponent :
    w ∈ exponent.matches' ↔
      ∃ e : Option ExponentPart, (∀ part ∈ e, part.WellFormed) ∧ ExponentPart.spelling e = w := by
  rw [exponent, mem_optional, mem_oneOf_mul]
  constructor
  · rintro (rfl | ⟨mark, hmark, v, hv, rfl⟩)
    · exact ⟨none, by simp, rfl⟩
    · obtain ⟨s, ds, hne, hds, rfl⟩ := mem_integer.mp hv
      refine ⟨some ⟨mark, s, ds⟩, ?_, rfl⟩
      rintro part ⟨rfl⟩
      exact ⟨List.mem_pair.mp hmark, hne, hds⟩
  · rintro ⟨e, he, rfl⟩
    cases e with
    | none => exact .inl rfl
    | some part =>
      obtain ⟨hmark, hne, hds⟩ := he part rfl
      exact .inr ⟨part.mark, List.mem_pair.mpr hmark, _,
        mem_integer.mpr ⟨part.sign, part.digits, hne, hds, rfl⟩, rfl⟩

theorem mem_decimal : w ∈ decimal.matches' ↔ ∃ l : Literal, l.WellFormed ∧ l.spelling = w := by
  rw [decimal, RegularExpression.matches'_mul, Language.mem_mul]
  constructor
  · rintro ⟨v, hv, u, hu, rfl⟩
    obtain ⟨m, hm, t, ht, rfl⟩ := Language.mem_mul.mp hu
    obtain ⟨s, rfl⟩ := mem_sign.mp hv
    obtain ⟨whole, fraction, hwhole, hfraction, hne, rfl⟩ := mem_mantissa.mp hm
    obtain ⟨e, he, rfl⟩ := mem_exponent.mp ht
    refine ⟨⟨s, whole, fraction, e⟩, ⟨hwhole, hfraction, he, hne⟩, ?_⟩
    simp only [Literal.spelling, List.append_assoc]
  · rintro ⟨l, ⟨hwhole, hfraction, he, hne⟩, rfl⟩
    refine ⟨_, mem_sign.mpr ⟨l.sign, rfl⟩, _, Language.mem_mul.mpr ⟨_, mem_mantissa.mpr
      ⟨l.whole, l.fraction, hwhole, hfraction, hne, rfl⟩, _, mem_exponent.mpr
      ⟨l.exponent, he, rfl⟩, rfl⟩, ?_⟩
    simp only [Literal.spelling, List.append_assoc]

example : ['-', '.', '5', 'e', '+', '7'] ∈ decimal.matches' ∧
    ['-', '.', 'e', '7'] ∉ decimal.matches' := by
  decide

theorem mem_hexadecimal :
    w ∈ hexadecimal.matches' ↔
      ∃ x ds, (x = 'x' ∨ x = 'X') ∧ ds ≠ [] ∧ (∀ c ∈ ds, c ∈ hexDigits) ∧ w = '0' :: x :: ds := by
  rw [hexadecimal, mem_oneOf_mul]
  constructor
  · rintro ⟨_, hzero, rest, hrest, rfl⟩
    obtain ⟨x, hx, ds, hds, rfl⟩ := mem_oneOf_mul.mp hrest
    obtain ⟨hne, hall⟩ := mem_many.mp hds
    exact ⟨x, ds, List.mem_pair.mp hx, hne, hall, by rw [List.mem_singleton.mp hzero]⟩
  · rintro ⟨x, ds, hx, hne, hall, rfl⟩
    exact ⟨'0', List.mem_singleton_self _, _, mem_oneOf_mul.mpr
      ⟨x, List.mem_pair.mpr hx, ds, mem_many.mpr ⟨hne, hall⟩, rfl⟩, rfl⟩

end Membership

end Grammar

end AbsEval
