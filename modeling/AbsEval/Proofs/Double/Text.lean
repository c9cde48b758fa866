import AbsEval.Conversion.Scalar
import AbsEval.Proofs.Decimal.Layout
import AbsEval.Proofs.Numeral.Parts

namespace AbsEval

-- The number that a text stands for, with its sign.
def Grammar.number (w : List Char) : ℚ :=
  if w.head? = some '-' then -magnitude w else magnitude w

theorem Literal.number_spelling {l : Literal} (h : l.WellFormed) :
    Grammar.number l.spelling =
      if l.isNegative then -l.decimal.toRat else l.decimal.toRat := by
  rw [Grammar.number, magnitude_spelling h, ← head?_spelling_eq_minus h]
  simp only [decide_eq_true_eq]

-- How a number is laid out whose first significant digit stands for a multiple of `10 ^ e`.
def Literal.HasLayout (e : Int) (l : Literal) : Prop :=
  if -4 ≤ e ∧ e ≤ 14 then l.exponent = none
  else l.whole.length = 1 ∧ ∃ part, l.exponent = some part ∧ part.mark = 'E' ∧
    part.sign = some (if e < 0 then .minus else .plus) ∧ 2 ≤ part.digits.length ∧ part.value = e

namespace Decimal

variable {d r : Decimal} {places : Nat} {q : ℚ}

-- Texts look only at the digits and at where the point is.

theorem positional_congr (hdigits : d.digits = r.digits) (hpoint : d.point = r.point)
    (tail : String) : r.positional tail = d.positional tail := by
  unfold positional
  rw [hdigits, hpoint]

theorem scientific_congr (hdigits : d.digits = r.digits) (hpoint : d.point = r.point)
    (exponentText : Int → String) : r.scientific exponentText = d.scientific exponentText := by
  unfold scientific
  rw [hdigits, hpoint]

theorem IsRounded.length_toDigits (hp : 2 ≤ places) (h : IsRounded places q d) :
    (Nat.toDigits 10 d.significand).length = places := by
  have hle := (Nat.length_toDigits_le_iff (by decide) (by omega)).mpr h.high
  have hgt : ¬(Nat.toDigits 10 d.significand).length ≤ places - 1 := by
    rw [Nat.length_toDigits_le_iff (by decide) (by omega)]
    exact Nat.not_lt_of_le h.low
  omega

theorem IsRounded.length_digits_le (hp : 2 ≤ places) (h : IsRounded places q d) :
    d.digits.length ≤ places := by
  obtain ⟨k, hk⟩ := exists_toDigits_eq d
  rw [← h.length_toDigits hp, hk, List.length_append]
  omega

end Decimal

namespace Double

-- The exponent of a text has a sign and at least two digits.
theorem exists_exponentText (e : Int) :
    ∃ part : ExponentPart, part.WellFormed ∧ part.mark = 'E' ∧
      part.sign = some (if e < 0 then .minus else .plus) ∧ 2 ≤ part.digits.length ∧
      part.value = e ∧ (textStyle.exponentText e).toList = ExponentPart.spelling (some part) := by
  have hdigits := List.all_eq_true.mp (all_isDigit_toDigits e.natAbs)
  have htext : (integerText e.natAbs).toList = Nat.toDigits 10 e.natAbs := by
    rw [toList_integerText, if_neg (by omega), List.nil_append, Int.natAbs_natCast]
  -- A single digit is filled up with a zero.
  obtain ⟨k, hpad, hlength⟩ : ∃ k, (if e.natAbs < 10 then "0" else "").toList =
      List.replicate k '0' ∧ 2 ≤ k + (Nat.toDigits 10 e.natAbs).length := by
    by_cases hlt : e.natAbs < 10
    · have hpos := Nat.length_toDigits_pos (b := 10) (n := e.natAbs)
      exact ⟨1, by rw [if_pos hlt]; rfl, by omega⟩
    · have hlong : ¬(Nat.toDigits 10 e.natAbs).length ≤ 1 := by
        rwa [Nat.length_toDigits_le_iff (by decide) Nat.one_pos]
      exact ⟨0, by rw [if_neg hlt]; rfl, by omega⟩
  have hvalue : ofDigits (List.replicate k '0' ++ Nat.toDigits 10 e.natAbs) = e.natAbs := by
    have hzeros := ofDigits_zeros k 0 (Nat.toDigits 10 e.natAbs)
    rw [List.replicate_zero, List.append_nil, Nat.pow_zero, Nat.mul_one] at hzeros
    rw [hzeros]
    exact Nat.ofDigitChars_ten_toDigits
  refine ⟨⟨'E', some (if e < 0 then .minus else .plus),
    List.replicate k '0' ++ Nat.toDigits 10 e.natAbs⟩, ⟨.inr rfl, ?_, ?_⟩, rfl, rfl, ?_, ?_, ?_⟩
  · exact List.append_ne_nil_of_right_ne_nil _ Nat.toDigits_ne_nil
  · intro c hc
    rcases List.mem_append.mp hc with hc | hc
    · rw [List.eq_of_mem_replicate hc]
      rfl
    · exact hdigits c hc
  · rwa [List.length_append, List.length_replicate]
  · rw [ExponentPart.value, hvalue]
    split
    · show -(e.natAbs : Int) = e
      omega
    · show (e.natAbs : Int) = e
      omega
  · simp only [textStyle, String.toList_append, hpad, htext]
    split <;> rfl

variable {d : Decimal} {units : Nat}

theorem exists_writes_text {q : ℚ} (h : Decimal.IsRounded 15 q d) (sign : Option Sign) :
    ∃ l : Literal, l.Writes 15 sign d ∧ l.HasLayout (d.exponent + 14) ∧
      l.spelling = Sign.spelling sign ++
        (if textStyle.positional (d.point - 1) then d.positional ""
          else d.scientific textStyle.exponentText).toList := by
  have hpos : 0 < d.significand := Nat.lt_of_lt_of_le (by decide) h.low
  have hlength : d.digits.length ≤ 15 := h.length_digits_le (by decide)
  have hpoint : d.point - 1 = d.exponent + 14 := by
    rw [Decimal.point, h.length_toDigits (by decide)]
    omega
  have hpositional : textStyle.positional (d.point - 1) =
      decide (-4 ≤ d.exponent + 14 ∧ d.exponent + 14 ≤ 14) := by
    rw [hpoint, Bool.eq_iff_iff]
    simp only [textStyle, Bool.and_eq_true, decide_eq_true_eq]
    omega
  by_cases hsmall : -4 ≤ d.exponent + 14 ∧ d.exponent + 14 ≤ 14
  · obtain ⟨l, hwrites, hexponent, hspelling⟩ :=
      Decimal.exists_writes_positional sign hpos hlength (by omega)
    refine ⟨l, hwrites, ?_, ?_⟩
    · rwa [Literal.HasLayout, if_pos hsmall]
    · rw [hpositional, decide_eq_true hsmall, hspelling, if_pos rfl]
  · obtain ⟨part, hpart, hmark, hsign, htwo, hvalue, htext⟩ := exists_exponentText (d.point - 1)
    obtain ⟨l, hwrites, hexponent, hwhole, hspelling⟩ :=
      Decimal.exists_writes_scientific sign hpos hlength hpart hvalue htext
    refine ⟨l, hwrites, ?_, ?_⟩
    · rw [hpoint] at hsign hvalue
      rw [Literal.HasLayout, if_neg hsmall]
      exact ⟨hwhole, part, hexponent, hmark, hsign, htwo, hvalue⟩
    · rw [hpositional, decide_eq_false hsmall, hspelling, if_neg Bool.false_ne_true]

theorem toList_text (negative : Bool) (fits : Representable units) (h : units ≠ 0)
    (hdigits : d.digits = (Decimal.ofRatio 15 units unitsPerOne).digits)
    (hpoint : d.point = (Decimal.ofRatio 15 units unitsPerOne).point) :
    ((finite negative units fits).text textStyle).toList =
      Sign.spelling (if negative then some .minus else none) ++
        (if textStyle.positional (d.point - 1) then d.positional ""
          else d.scientific textStyle.exponentText).toList := by
  have hmagnitude : magnitudeText textStyle units =
      if textStyle.positional (d.point - 1) then d.positional ""
        else d.scientific textStyle.exponentText := by
    rw [magnitudeText, if_neg h, hpoint, ← Decimal.positional_congr hdigits hpoint,
      ← Decimal.scientific_congr hdigits hpoint]
    rfl
  rw [text, hmagnitude, String.toList_append]
  congr 1
  cases negative with
  | false => rfl
  | true => rw [decide_eq_true h]; rfl

-- The text of a number has the value of the number rounded to fifteen digits, and only one decimal
-- number is that. A scan takes the whole text for a number.
theorem text_keeps_value (negative : Bool) (fits : Representable units) (h : units ≠ 0) :
    ∃ d, Decimal.IsRounded 15 (units / unitsPerOne) d ∧
      (∀ other, Decimal.IsRounded 15 (units / unitsPerOne) other → other = d) ∧
      Grammar.number ((finite negative units fits).text textStyle).toList =
        (if negative then -d.toRat else d.toRat) ∧
      ∃ l : Literal, l.spelling = ((finite negative units fits).text textStyle).toList ∧
        l.Writes 15 (if negative then some .minus else none) d ∧
        l.HasLayout (d.exponent + 14) ∧
        Literal.split? ((finite negative units fits).text textStyle).toList = some (l, []) ∧
        ∀ allowHex, Numeral.ofText allowHex ((finite negative units fits).text textStyle) =
          Numeral.ofLiteral l := by
  obtain ⟨d, hrounded, hdigits, hpoint⟩ :=
    Decimal.exists_isRounded_ofRatio (show 2 ≤ 15 by decide) (Nat.pos_of_ne_zero h)
      unitsPerOne_pos
  obtain ⟨l, hwrites, hlayout, hspelling⟩ :=
    exists_writes_text hrounded (if negative then some .minus else none)
  have htext := hspelling.trans (toList_text negative fits h hdigits hpoint).symm
  have hnegative : l.isNegative = negative := by
    rw [Literal.isNegative, hwrites.sign_eq]
    cases negative <;> rfl
  refine ⟨d, hrounded, fun other hother => hother.unique (by decide) hrounded, ?_, l, htext,
    hwrites, hlayout, ?_, fun allowHex => Numeral.ofText_spelling hwrites.wellFormed allowHex htext⟩
  · rw [← htext, Literal.number_spelling hwrites.wellFormed, hwrites.value, hnegative]
  · rw [← htext, Literal.split?_spelling hwrites.wellFormed]

-- The negative number nearest to zero.
theorem text_keeps_value_smallest :
    1 ≠ 0 ∧ ∃ (fits : Representable 1) (d : Decimal),
      Decimal.IsRounded 15 ((1 : Nat) / unitsPerOne) d ∧
        Grammar.number ((finite true 1 fits).text textStyle).toList = -d.toRat ∧
        ∃ l : Literal, l.spelling = ((finite true 1 fits).text textStyle).toList ∧
          l.Writes 15 (some .minus) d ∧ l.HasLayout (d.exponent + 14) := by
  have fits : Representable 1 :=
    representable_mul_two_pow (m := 1) (k := 0) (by decide) (by decide)
  obtain ⟨d, hrounded, -, hnumber, l, hspelling, hwrites, hlayout, -⟩ :=
    text_keeps_value true fits Nat.one_ne_zero
  exact ⟨Nat.one_ne_zero, fits, d, hrounded, hnumber, l, hspelling, hwrites, hlayout⟩

end Double

end AbsEval
