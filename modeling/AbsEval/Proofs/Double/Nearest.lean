import AbsEval.Double.Decimal
import AbsEval.Proofs.Double.Rounding

namespace AbsEval

variable {num den : Nat}

-- Rounding takes the nearer one of the two neighbours of a quotient, and of equally near ones the
-- even one.
theorem roundHalfEven_cases (num : Nat) (hden : 0 < den) :
    ∃ t : ℚ, (num : ℚ) / den = (num / den : Nat) + t ∧ 0 ≤ t ∧ t ≤ 1 ∧
      ((roundHalfEven num den = num / den ∧ t ≤ 1 - t ∧ (t = 1 - t → 2 ∣ num / den)) ∨
        (roundHalfEven num den = num / den + 1 ∧ 1 - t ≤ t ∧
          (t = 1 - t → 2 ∣ num / den + 1))) := by
  have hpos : (0 : ℚ) < den := by exact_mod_cast hden
  have hlt : ((num % den : Nat) : ℚ) < den := by exact_mod_cast Nat.mod_lt num hden
  have hsplit : (num : ℚ) = den * (num / den : Nat) + (num % den : Nat) := by
    exact_mod_cast (Nat.div_add_mod num den).symm
  refine ⟨(num % den : Nat) / den, ?_, by positivity, (div_le_one hpos).mpr hlt.le, ?_⟩
  · rw [hsplit]
    field_simp
  · have hhalf : ∀ {m n : Nat}, m ≤ n → (m : ℚ) / den ≤ n / den := fun h =>
      div_le_div_of_nonneg_right (by exact_mod_cast h) hpos.le
    have hrest : 1 - ((num % den : Nat) : ℚ) / den = (den - num % den : Nat) / den := by
      rw [Nat.cast_sub (Nat.mod_lt num hden).le, sub_div, div_self hpos.ne']
    have htie : ((num % den : Nat) : ℚ) / den = (den - num % den : Nat) / den →
        num % den = den - num % den := fun h => by
      exact_mod_cast (div_left_inj' hpos.ne').mp h
    rw [hrest]
    unfold roundHalfEven
    split
    · next hup => exact .inr ⟨rfl, hhalf (by omega), fun h => by have := htie h; omega⟩
    · next hdown => exact .inl ⟨rfl, hhalf (by omega), fun h => by have := htie h; omega⟩

-- A number between two neighbours is nearest to the nearer one, and only the other one may be as
-- near.
theorem abs_sub_le_of_neighbours {q a b r other : ℚ} (ha : a ≤ q) (hb : q ≤ b)
    (hr : (r = a ∧ q - a ≤ b - q) ∨ (r = b ∧ b - q ≤ q - a)) (hother : other ≤ a ∨ b ≤ other) :
    |q - r| ≤ |q - other| ∧ (other ≠ r → |q - r| = |q - other| → q - a = b - q) := by
  have hdistance : |q - r| = min (q - a) (b - q) := by
    rcases hr with ⟨rfl, hnear⟩ | ⟨rfl, hnear⟩
    · rw [min_eq_left hnear, abs_of_nonneg (sub_nonneg.mpr ha)]
    · rw [min_eq_right hnear, abs_sub_comm, abs_of_nonneg (sub_nonneg.mpr hb)]
  rw [hdistance]
  rcases hother with hle | hge
  · rw [abs_of_nonneg (by linarith : 0 ≤ q - other)]
    refine ⟨(min_le_left _ _).trans (by linarith), fun hne htie => ?_⟩
    rcases hr with ⟨rfl, hnear⟩ | ⟨rfl, hnear⟩
    · rw [min_eq_left hnear] at htie
      exact absurd (by linarith) hne
    · rw [min_eq_right hnear] at htie
      linarith
  · rw [abs_sub_comm, abs_of_nonneg (by linarith : 0 ≤ other - q)]
    refine ⟨(min_le_right _ _).trans (by linarith), fun hne htie => ?_⟩
    rcases hr with ⟨rfl, hnear⟩ | ⟨rfl, hnear⟩
    · rw [min_eq_left hnear] at htie
      linarith
    · rw [min_eq_right hnear] at htie
      exact absurd (by linarith) hne

namespace Double

-- The magnitudes with a 53-bit significand, without a greatest one.
def OnGrid (units : Nat) : Prop :=
  ∃ m k, m < 2 ^ 53 ∧ units = m * 2 ^ k

-- The number of steps from zero, of the size that neighbours have there, is even.
def HasEvenSignificand (units : Nat) : Prop :=
  2 * 2 ^ spacing units ∣ units

-- The magnitude nearest to a number, both counted in units. Of two nearest ones it is the one with
-- the even significand.
structure IsNearest (q : ℚ) (units : Nat) : Prop where
  onGrid : OnGrid units
  nearest : ∀ other, OnGrid other → |q - units| ≤ |q - other|
  even : ∀ other, OnGrid other → other ≠ units → |q - units| = |q - other| →
    HasEvenSignificand units

-- The double of this sign nearest to a number that is not negative, infinite if no finite double is
-- as large as the magnitude nearest to it.
def IsCorrectlyRounded (negative : Bool) (q : ℚ) (x : Double) : Prop :=
  ∃ units, IsNearest (q * unitsPerOne) units ∧
    ((unitLimit ≤ units ∧ x = infinite negative) ∨ ∃ fits, x = finite negative units fits)

theorem two_pow_spacing_dvd {units : Nat} (h : OnGrid units) : 2 ^ spacing units ∣ units := by
  obtain ⟨m, k, hm, rfl⟩ := h
  have hlt : m * 2 ^ k < 2 ^ (53 + k) := by
    rw [Nat.pow_add]
    exact Nat.mul_lt_mul_of_pos_right hm (Nat.two_pow_pos k)
  exact Nat.dvd_trans (Nat.pow_dvd_pow 2 (spacing_le_of_lt hlt)) (Nat.dvd_mul_left _ _)

theorem onGrid_mul_two_pow {m : Nat} (h : m ≤ 2 ^ 53) (k : Nat) : OnGrid (m * 2 ^ k) := by
  rcases Nat.lt_or_eq_of_le h with hlt | rfl
  · exact ⟨m, k, hlt, rfl⟩
  · refine ⟨2 ^ 52, k + 1, by decide, ?_⟩
    rw [← Nat.pow_add, ← Nat.pow_add]
    congr 1
    omega

theorem hasEvenSignificand_mul_two_pow {m : Nat} (h : m ≤ 2 ^ 53) (heven : 2 ∣ m) (k : Nat) :
    HasEvenSignificand (m * 2 ^ k) := by
  unfold HasEvenSignificand
  rcases Nat.lt_or_eq_of_le h with hlt | rfl
  · have hspacing : spacing (m * 2 ^ k) ≤ k := by
      refine spacing_le_of_lt ?_
      rw [Nat.pow_add]
      exact Nat.mul_lt_mul_of_pos_right hlt (Nat.two_pow_pos k)
    exact Nat.mul_dvd_mul heven (Nat.pow_dvd_pow 2 hspacing)
  · -- The next power of two: its neighbours are twice as far apart.
    have hspacing : spacing (2 ^ 53 * 2 ^ k) = k + 1 := by
      rw [← Nat.pow_add, spacing, Nat.log2_two_pow]
      omega
    rw [hspacing, Nat.pow_succ, Nat.mul_comm (2 ^ k), ← Nat.mul_assoc]
    exact Nat.mul_dvd_mul (by decide : 2 * 2 ∣ 2 ^ 53) (Nat.dvd_refl (2 ^ k))

-- Between a multiple of the step and the next one there is no magnitude of the grid, since from the
-- lower one on neighbours are at least a step apart.
theorem le_or_le_of_onGrid {f s other : Nat} (hf : s = 0 ∨ 2 ^ 52 ≤ f) (h : OnGrid other) :
    other ≤ f * 2 ^ s ∨ (f + 1) * 2 ^ s ≤ other := by
  rcases Nat.le_total other (f * 2 ^ s) with hle | hge
  · exact .inl hle
  have hspacing : s ≤ spacing other := by
    rcases hf with rfl | hf
    · exact Nat.zero_le _
    · have hpow : spacing (2 ^ (52 + s)) = s := by
        rw [spacing, Nat.log2_two_pow]
        omega
      rw [← hpow]
      refine spacing_le_spacing (Nat.le_trans ?_ hge)
      rw [Nat.pow_add]
      exact Nat.mul_le_mul_right _ hf
  obtain ⟨j, rfl⟩ := Nat.dvd_trans (Nat.pow_dvd_pow 2 hspacing) (two_pow_spacing_dvd h)
  rw [Nat.mul_comm (2 ^ s)] at hge ⊢
  have hpos := Nat.two_pow_pos s
  rcases Nat.lt_or_ge f j with hlt | hle
  · exact .inr (Nat.mul_le_mul_right _ hlt)
  · exact .inl (Nat.mul_le_mul_right _ hle)

-- A number between two neighbours of the grid has the nearer one for its nearest magnitude.
theorem isNearest_of_neighbours {q : ℚ} {a b r : Nat} (hgrid : OnGrid r)
    (hgap : ∀ other, OnGrid other → other ≤ a ∨ b ≤ other) (ha : a ≤ q) (hb : q ≤ b)
    (hr : (r = a ∧ q - a ≤ b - q) ∨ (r = b ∧ b - q ≤ q - a))
    (heven : q - a = b - q → HasEvenSignificand r) : IsNearest q r := by
  have hr' : ((r : ℚ) = a ∧ q - a ≤ b - q) ∨ ((r : ℚ) = b ∧ b - q ≤ q - a) := by
    exact_mod_cast hr
  have hnear : ∀ other, OnGrid other → |q - r| ≤ |q - other| ∧
      ((other : ℚ) ≠ r → |q - r| = |q - other| → q - a = b - q) := fun other hother =>
    abs_sub_le_of_neighbours ha hb hr' (by exact_mod_cast hgap other hother)
  exact ⟨hgrid, fun other hother => (hnear other hother).1, fun other hother hne htie =>
    heven ((hnear other hother).2 (by exact_mod_cast hne) htie)⟩

theorem isNearest_roundUnits (num : Nat) (hden : 0 < den) :
    IsNearest ((num : ℚ) / den) (roundUnits num den) := by
  have hbound := roundHalfEven_spacing_le num den
  unfold roundUnits
  generalize hs : spacing (num / den) = s at hbound ⊢
  have hstep : 0 < den * 2 ^ s := Nat.mul_pos hden (Nat.two_pow_pos s)
  have hfull : s = 0 ∨ 2 ^ 52 ≤ num / (den * 2 ^ s) := by
    rcases Nat.eq_zero_or_pos s with hzero | hpos
    · exact .inl hzero
    · subst hs
      exact .inr (two_pow_le_div hpos)
  obtain ⟨t, ht, ht0, ht1, hround⟩ := roundHalfEven_cases num hstep
  generalize num / (den * 2 ^ s) = f at hfull ht hround
  have hq : (num : ℚ) / den = (f + t) * 2 ^ s := by
    rw [← ht]
    push_cast
    field_simp
  have hpos : (0 : ℚ) < 2 ^ s := by positivity
  have hbelow : (num : ℚ) / den - (f * 2 ^ s : Nat) = t * 2 ^ s := by
    rw [hq]
    push_cast
    ring
  have habove : ((f + 1) * 2 ^ s : Nat) - (num : ℚ) / den = (1 - t) * 2 ^ s := by
    rw [hq]
    push_cast
    ring
  have hscale : ∀ {x y : ℚ}, x * 2 ^ s = y * 2 ^ s → x = y := fun h =>
    mul_right_cancel₀ hpos.ne' h
  refine isNearest_of_neighbours (onGrid_mul_two_pow hbound s)
    (fun other hother => le_or_le_of_onGrid hfull hother) ?_ ?_ ?_ ?_
  · rw [← sub_nonneg, hbelow]
    exact mul_nonneg ht0 hpos.le
  · rw [← sub_nonneg, habove]
    exact mul_nonneg (sub_nonneg.mpr ht1) hpos.le
  · rw [hbelow, habove]
    rcases hround with ⟨hr, hle, -⟩ | ⟨hr, hle, -⟩
    · exact .inl ⟨by rw [hr], mul_le_mul_of_nonneg_right hle hpos.le⟩
    · exact .inr ⟨by rw [hr], mul_le_mul_of_nonneg_right hle hpos.le⟩
  · rw [hbelow, habove]
    intro htie
    refine hasEvenSignificand_mul_two_pow hbound ?_ s
    rcases hround with ⟨hr, -, heven⟩ | ⟨hr, -, heven⟩ <;> rw [hr]
    · exact heven (hscale htie)
    · exact heven (hscale htie)

end Double

end AbsEval
