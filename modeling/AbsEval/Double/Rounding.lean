import AbsEval.Word

namespace AbsEval

-- The natural number nearest to `num / den`. A half goes to the even neighbour.
def roundHalfEven (num den : Nat) : Nat :=
  if den < 2 * (num % den) ∨ (2 * (num % den) = den ∧ num / den % 2 = 1) then
    num / den + 1
  else
    num / den

theorem roundHalfEven_le (num den : Nat) : roundHalfEven num den ≤ num / den + 1 := by
  unfold roundHalfEven
  split <;> omega

theorem le_roundHalfEven (num den : Nat) : num / den ≤ roundHalfEven num den := by
  unfold roundHalfEven
  split <;> omega

-- A whole quotient is kept.
theorem roundHalfEven_of_dvd {num den : Nat} (hden : 0 < den) (h : den ∣ num) :
    roundHalfEven num den = num / den := by
  have hr : num % den = 0 := Nat.mod_eq_zero_of_dvd h
  unfold roundHalfEven
  rw [if_neg]
  omega

namespace Double

-- Every finite double is a whole number of units of size 2^-1074, so magnitudes are counted
-- in that unit and no fraction is left over. This many units make the number one.
def unitsPerOne : Nat := 2 ^ 1074

-- The first magnitude beyond the finite doubles, 2^1024 in units.
def unitLimit : Nat := 2 ^ 2098

-- Neighbouring doubles of this magnitude lie `2 ^ spacing units` units apart: a significand has
-- 53 bits, and below 2^53 units every whole number of units is a double.
def spacing (units : Nat) : Nat :=
  units.log2 - 52

-- The magnitudes of finite doubles.
def Representable (units : Nat) : Prop :=
  units < unitLimit ∧ 2 ^ spacing units ∣ units

instance (units : Nat) : Decidable (Representable units) :=
  inferInstanceAs (Decidable (_ ∧ _))

-- The magnitude with a 53-bit significand nearest to `num / den` units, ties to even.
def roundUnits (num den : Nat) : Nat :=
  roundHalfEven num (den * 2 ^ spacing (num / den)) * 2 ^ spacing (num / den)

theorem lt_two_pow_spacing (units : Nat) : units < 2 ^ (53 + spacing units) :=
  Nat.lt_of_lt_of_le Nat.lt_log2_self (Nat.pow_le_pow_right (by decide) (by unfold spacing; omega))

theorem spacing_le_of_lt {units k : Nat} (h : units < 2 ^ (53 + k)) : spacing units ≤ k := by
  by_cases h0 : units = 0
  · simp [h0, spacing]
  · have := (Nat.log2_lt h0).mpr h
    unfold spacing
    omega

theorem roundHalfEven_spacing_le (num den : Nat) :
    roundHalfEven num (den * 2 ^ spacing (num / den)) ≤ 2 ^ 53 := by
  refine Nat.le_trans (roundHalfEven_le _ _) ?_
  rw [← Nat.div_div_eq_div_mul]
  have h := lt_two_pow_spacing (num / den)
  rw [Nat.pow_add] at h
  have := (Nat.div_lt_iff_lt_mul (Nat.two_pow_pos (spacing (num / den)))).mpr h
  omega

-- Rounding up to the next power of two widens the spacing by one, and the result still is a
-- whole number of the wider steps.
theorem two_pow_spacing_dvd_roundUnits (num den : Nat) :
    2 ^ spacing (roundUnits num den) ∣ roundUnits num den := by
  have hle := roundHalfEven_spacing_le num den
  unfold roundUnits
  generalize spacing (num / den) = s at hle ⊢
  generalize roundHalfEven num (den * 2 ^ s) = m at hle ⊢
  by_cases hm : m = 2 ^ 53
  · subst hm
    rw [← Nat.pow_add]
    refine Nat.pow_dvd_pow 2 ?_
    rw [spacing, Nat.log2_two_pow]
    omega
  · have hlt : m * 2 ^ s < 2 ^ (53 + s) := by
      rw [Nat.pow_add]
      exact Nat.mul_lt_mul_of_pos_right (by omega) (Nat.two_pow_pos s)
    exact Nat.dvd_trans (Nat.pow_dvd_pow 2 (spacing_le_of_lt hlt)) (Nat.dvd_mul_left _ _)

theorem representable_roundUnits {num den : Nat} (h : roundUnits num den < unitLimit) :
    Representable (roundUnits num den) :=
  ⟨h, two_pow_spacing_dvd_roundUnits num den⟩

-- A magnitude that is representable already is kept.
theorem roundUnits_of_representable {units : Nat} (h : Representable units) :
    roundUnits units 1 = units := by
  unfold roundUnits
  rw [Nat.div_one, Nat.one_mul, roundHalfEven_of_dvd (Nat.two_pow_pos _) h.2]
  exact Nat.div_mul_cancel h.2

end Double

end AbsEval
