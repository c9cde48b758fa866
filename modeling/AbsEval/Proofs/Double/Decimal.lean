import AbsEval.Proofs.Double.Nearest

namespace AbsEval

namespace Decimal

theorem shifted_pos {den : Nat} (num : Nat) (hden : 0 < den) (shift : Int) :
    0 < (shifted num den shift).2 := by
  unfold shifted
  split
  · exact hden
  · exact Nat.mul_pos hden (Nat.pow_pos (by decide))

theorem shifted_ratio (num den : Nat) (shift : Int) :
    ((shifted num den shift).1 : ℚ) / (shifted num den shift).2 = num / den * 10 ^ shift := by
  unfold shifted
  split
  · next h =>
    obtain ⟨k, rfl⟩ := Int.eq_ofNat_of_zero_le h
    simp only [Int.toNat_natCast, zpow_natCast]
    push_cast
    ring
  · next h =>
    obtain ⟨k, hk⟩ := Int.eq_ofNat_of_zero_le (by omega : 0 ≤ -shift)
    obtain rfl : shift = -k := by omega
    simp only [neg_neg, Int.toNat_natCast, zpow_neg, zpow_natCast]
    push_cast
    rw [div_mul_eq_div_div, div_eq_mul_inv (_ / _)]

-- The number as a rational.
def toRat (d : Decimal) : ℚ :=
  d.significand * 10 ^ d.exponent

end Decimal

namespace Double

variable {num den : Nat} {negative : Bool}

theorem isCorrectlyRounded_ofUnits {q : ℚ} (hden : 0 < den)
    (hq : (num : ℚ) / den = q * unitsPerOne) :
    IsCorrectlyRounded negative q (ofUnits negative num den) := by
  refine ⟨roundUnits num den, hq ▸ isNearest_roundUnits num hden, ?_⟩
  unfold ofUnits
  split
  · next hlt => exact .inr ⟨representable_roundUnits hlt, rfl⟩
  · next hge => exact .inl ⟨Nat.le_of_not_lt hge, rfl⟩

-- What is too small for half a unit is zero, and what is too large is infinite.

theorem roundUnits_of_lt_half (h : 2 * num < den) : roundUnits num den = 0 := by
  have hdiv : num / den = 0 := Nat.div_eq_of_lt (by omega)
  have hmod : num % den = num := Nat.mod_eq_of_lt (by omega)
  have hspacing : spacing (num / den) = 0 := by
    rw [hdiv]
    rfl
  have hround : roundHalfEven num den = 0 := by
    unfold roundHalfEven
    rw [hdiv, hmod, if_neg (by omega)]
  unfold roundUnits
  rw [hspacing, Nat.pow_zero, Nat.mul_one, Nat.mul_one, hround]

theorem roundUnits_unitLimit : roundUnits unitLimit 1 = unitLimit := by
  decide +kernel

theorem ofUnits_of_unitLimit_le (negative : Bool) (h : unitLimit ≤ num) :
    ofUnits negative num 1 = infinite negative := by
  have hround : unitLimit ≤ roundUnits num 1 := by
    rw [← roundUnits_unitLimit]
    exact roundUnits_le_roundUnits Nat.one_pos Nat.one_pos (Nat.mul_le_mul_right 1 h)
  unfold ofUnits
  rw [dif_neg (Nat.not_lt_of_le hround)]

theorem ofUnits_of_lt_half (negative : Bool) (h : 2 * num < den) :
    ofUnits negative num den = ofUnits negative 0 1 := by
  have hzero : roundUnits num den = roundUnits 0 1 := by
    rw [roundUnits_of_lt_half h, roundUnits_zero]
  unfold ofUnits
  simp only [hzero]

-- The double nearest to a decimal number, whatever its exponent.
def ofScaled (negative : Bool) (d : Decimal) : Double :=
  ofUnits negative (Decimal.shifted (d.significand * unitsPerOne) 1 d.exponent).1
    (Decimal.shifted (d.significand * unitsPerOne) 1 d.exponent).2

theorem isCorrectlyRounded_ofScaled (negative : Bool) (d : Decimal) :
    IsCorrectlyRounded negative d.toRat (ofScaled negative d) := by
  refine isCorrectlyRounded_ofUnits (Decimal.shifted_pos _ Nat.one_pos _) ?_
  rw [Decimal.shifted_ratio, Decimal.toRat]
  push_cast
  ring

variable {significand : Nat} {exponent : Int}

theorem ofScaled_zero (negative : Bool) (exponent : Int) :
    ofScaled negative ⟨0, exponent⟩ = ofUnits negative 0 1 := by
  have hpos := Decimal.shifted_pos (0 * unitsPerOne) Nat.one_pos exponent
  have hzero : (Decimal.shifted (0 * unitsPerOne) 1 exponent).1 = 0 := by
    unfold Decimal.shifted
    split <;> simp only [Nat.zero_mul]
  refine ofUnits_of_lt_half negative ?_
  rwa [hzero]

-- A positive significand is one at least, so with an exponent of 400 it is too large.
theorem ofScaled_of_large (negative : Bool) (h : 0 < significand) (he : 400 ≤ exponent) :
    ofScaled negative ⟨significand, exponent⟩ = infinite negative := by
  obtain ⟨k, rfl⟩ := Int.eq_ofNat_of_zero_le (by omega : 0 ≤ exponent)
  obtain ⟨n, hn, hlimit⟩ : ∃ n, n = 400 ∧ unitLimit ≤ unitsPerOne * 10 ^ n :=
    ⟨400, rfl, by decide +kernel⟩
  unfold ofScaled Decimal.shifted
  rw [if_pos (Int.natCast_nonneg k)]
  refine ofUnits_of_unitLimit_le negative ?_
  calc unitLimit ≤ unitsPerOne * 10 ^ n := hlimit
    _ ≤ unitsPerOne * 10 ^ k :=
      Nat.mul_le_mul_left _ (Nat.pow_le_pow_right (Nat.succ_pos 9) (by omega))
    _ ≤ significand * unitsPerOne * 10 ^ k :=
      Nat.mul_le_mul_right _ (Nat.le_mul_of_pos_left _ h)

-- A significand is below the power of ten with as many zeros as it has digits.
theorem ofScaled_of_small (negative : Bool)
    (he : exponent ≤ -((Nat.toDigits 10 significand).length + 400)) :
    ofScaled negative ⟨significand, exponent⟩ = ofUnits negative 0 1 := by
  obtain ⟨k, hk⟩ := Int.eq_ofNat_of_zero_le (by omega : 0 ≤ -exponent)
  obtain rfl : exponent = -k := by omega
  have hdigits : significand < 10 ^ (Nat.toDigits 10 significand).length :=
    (Nat.length_toDigits_le_iff (by decide) Nat.length_toDigits_pos).mp (Nat.le_refl _)
  obtain ⟨n, hn, hunit⟩ : ∃ n, n = 400 ∧ 2 * unitsPerOne ≤ 10 ^ n :=
    ⟨400, rfl, by decide +kernel⟩
  unfold ofScaled Decimal.shifted
  dsimp only
  rw [if_neg (by omega), Int.neg_neg, Int.toNat_natCast, Nat.one_mul]
  refine ofUnits_of_lt_half negative ?_
  calc 2 * (significand * unitsPerOne) = significand * (2 * unitsPerOne) := Nat.mul_left_comm _ _ _
    _ < 10 ^ (Nat.toDigits 10 significand).length * 10 ^ n :=
      Nat.mul_lt_mul_of_lt_of_le hdigits hunit (Nat.pow_pos (Nat.succ_pos 9))
    _ = 10 ^ ((Nat.toDigits 10 significand).length + n) := (Nat.pow_add _ _ _).symm
    _ ≤ 10 ^ k := Nat.pow_le_pow_right (Nat.succ_pos 9) (by omega)

-- Bringing the exponent near changes nothing.
theorem ofDecimal_eq_ofScaled (negative : Bool) (d : Decimal) :
    ofDecimal negative d = ofScaled negative d := by
  obtain ⟨significand, exponent⟩ := d
  generalize hleast : -((Nat.toDigits 10 significand).length + 400 : Int) = least
  have hclamp : ofDecimal negative ⟨significand, exponent⟩ =
      ofScaled negative ⟨significand, max least (min exponent 400)⟩ := by
    subst hleast
    rfl
  rw [hclamp]
  rcases Nat.eq_zero_or_pos significand with rfl | hpos
  · rw [ofScaled_zero, ofScaled_zero]
  rcases Int.lt_or_le 400 exponent with hlarge | hle
  · rw [ofScaled_of_large negative hpos hlarge.le, ofScaled_of_large negative hpos (by omega)]
  rcases Int.lt_or_le exponent least with hsmall | hge
  · rw [ofScaled_of_small negative (by omega : max least (min exponent 400) ≤ _),
      ofScaled_of_small negative (by omega : exponent ≤ _)]
  · rw [min_eq_left hle, max_eq_right hge]

theorem isCorrectlyRounded_ofDecimal (negative : Bool) (d : Decimal) :
    IsCorrectlyRounded negative d.toRat (ofDecimal negative d) :=
  ofDecimal_eq_ofScaled negative d ▸ isCorrectlyRounded_ofScaled negative d

end Double

end AbsEval
