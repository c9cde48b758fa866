import AbsEval.Proofs.Double.Decimal

namespace AbsEval.Decimal

variable {num den places : Nat} {q : ℚ} {d : Decimal}

-- The number with this many significant digits nearest to a positive one. Of two nearest ones it is
-- the one with the even last digit.
structure IsRounded (places : Nat) (q : ℚ) (d : Decimal) : Prop where
  low : 10 ^ (places - 1) ≤ d.significand
  high : d.significand < 10 ^ places
  nearest : ∀ other : Decimal, other.significand < 10 ^ places → |q - d.toRat| ≤ |q - other.toRat|
  even : ∀ other : Decimal, other.significand < 10 ^ places → other.toRat ≠ d.toRat →
    |q - d.toRat| = |q - other.toRat| → 2 ∣ d.significand

theorem ten_zpow_pos (k : Int) : (0 : ℚ) < 10 ^ k :=
  zpow_pos (by norm_num) k

-- A number in steps that are smaller by some powers of ten.
theorem toRat_eq_mul (d : Decimal) {k : Int} {j : Nat} (h : d.exponent = k + j) :
    d.toRat = (d.significand * 10 ^ j : Nat) * 10 ^ k := by
  rw [toRat, h, zpow_add₀ (by norm_num), zpow_natCast]
  push_cast
  ring

-- A smaller exponent makes a smaller number, however many digits there are.
theorem toRat_le_of_exponent_lt {f : Nat} {k : Int} (hp : 0 < places)
    (hf : 10 ^ (places - 1) ≤ f) (hd : d.significand < 10 ^ places) (hk : d.exponent < k) :
    d.toRat ≤ f * 10 ^ k := by
  have hpow : (10 : ℚ) ^ d.exponent * 10 ≤ 10 ^ k := by
    rw [← zpow_add_one₀ (by norm_num)]
    exact zpow_le_zpow_right₀ (by norm_num) (by omega)
  have hsignificand : (d.significand : ℚ) ≤ 10 ^ (places - 1) * 10 := by
    rw [← pow_succ, Nat.sub_add_cancel hp]
    exact_mod_cast hd.le
  have hf' : (10 : ℚ) ^ (places - 1) ≤ f := by exact_mod_cast hf
  calc d.toRat ≤ 10 ^ (places - 1) * 10 * 10 ^ d.exponent :=
        mul_le_mul_of_nonneg_right hsignificand (ten_zpow_pos _).le
    _ = 10 ^ (places - 1) * (10 ^ d.exponent * 10) := by ring
    _ ≤ 10 ^ (places - 1) * 10 ^ k := mul_le_mul_of_nonneg_left hpow (by positivity)
    _ ≤ f * 10 ^ k := mul_le_mul_of_nonneg_right hf' (ten_zpow_pos k).le

-- Between a number with all its digits and the next one of the same exponent there is no other.
theorem toRat_le_or_le {f : Nat} {k : Int} (hp : 0 < places) (hf : 10 ^ (places - 1) ≤ f)
    (hd : d.significand < 10 ^ places) :
    d.toRat ≤ f * 10 ^ k ∨ (f + 1) * 10 ^ k ≤ d.toRat := by
  have hpos := ten_zpow_pos k
  rcases Int.lt_or_le d.exponent k with hlt | hle
  · exact .inl (toRat_le_of_exponent_lt hp hf hd hlt)
  · -- Both are multiples of the same power of ten.
    obtain ⟨j, hj⟩ := Int.eq_ofNat_of_zero_le (by omega : 0 ≤ d.exponent - k)
    rw [toRat_eq_mul d (by omega : d.exponent = k + j)]
    rcases Nat.lt_or_ge f (d.significand * 10 ^ j) with hlt | hge
    · exact .inr (mul_le_mul_of_nonneg_right (by exact_mod_cast hlt) hpos.le)
    · exact .inl (mul_le_mul_of_nonneg_right (by exact_mod_cast hge) hpos.le)

-- The next number has at most as many digits. After nines it is a power of ten.
theorem exists_toRat_succ {m : Nat} (k : Int) (hp : 0 < places) (hm : m < 10 ^ places) :
    ∃ next : Decimal, next.significand < 10 ^ places ∧ next.toRat = (m + 1) * 10 ^ k := by
  rcases Nat.lt_or_eq_of_le (Nat.succ_le_of_lt hm) with hlt | heq
  · exact ⟨⟨m + 1, k⟩, hlt, by simp [toRat]⟩
  · refine ⟨⟨10 ^ (places - 1), k + 1⟩, Nat.pow_lt_pow_right (by decide) (by omega), ?_⟩
    have hcast : (m : ℚ) + 1 = 10 ^ (places - 1) * 10 := by
      rw [← pow_succ, Nat.sub_add_cancel hp]
      exact_mod_cast heq
    rw [toRat, hcast, zpow_add_one₀ (by norm_num)]
    push_cast
    ring

namespace IsRounded

variable {d' : Decimal}

-- Two numbers that are equally near are neighbours, and one of them is odd.
theorem not_toRat_lt (hp : 0 < places) (h : IsRounded places q d) (h' : IsRounded places q d') :
    ¬d.toRat < d'.toRat := by
  intro hlt
  have htie : |q - d.toRat| = |q - d'.toRat| :=
    le_antisymm (h.nearest d' h'.high) (h'.nearest d h.high)
  have heven : 2 ∣ d.significand := h.even d' h'.high hlt.ne' htie
  have heven' : 2 ∣ d'.significand := h'.even d h.high hlt.ne htie.symm
  have hmiddle : q - d.toRat = d'.toRat - q := by
    rcases abs_eq_abs.mp htie with hsame | hopposite
    · linarith
    · linarith
  obtain ⟨next, hnext, hvalue⟩ := exists_toRat_succ d.exponent hp h.high
  have hafter : d.toRat < next.toRat := by
    rw [hvalue, toRat]
    exact mul_lt_mul_of_pos_right (lt_add_one _) (ten_zpow_pos _)
  have hle : next.toRat ≤ d'.toRat := by
    rw [hvalue]
    exact (toRat_le_or_le hp h.low h'.high).resolve_left (not_le_of_gt hlt)
  have heq : next.toRat = d'.toRat := by
    refine le_antisymm hle (not_lt.mp fun hbefore => ?_)
    have hnear := h.nearest next hnext
    rw [abs_of_pos (by linarith : 0 < q - d.toRat)] at hnear
    rcases abs_cases (q - next.toRat) with ⟨habs, -⟩ | ⟨habs, -⟩
    · linarith
    · linarith
  have hexponent : d.exponent ≤ d'.exponent := not_lt.mp fun hless =>
    not_le_of_gt hlt (toRat_le_of_exponent_lt hp h.low h'.high hless)
  obtain ⟨j, hj⟩ := Int.eq_ofNat_of_zero_le (by omega : 0 ≤ d'.exponent - d.exponent)
  rw [hvalue, toRat_eq_mul d' (by omega : d'.exponent = d.exponent + j)] at heq
  have hsucc : d.significand + 1 = d'.significand * 10 ^ j := by
    exact_mod_cast mul_right_cancel₀ (ten_zpow_pos _).ne' heq
  have hdvd : 2 ∣ d'.significand * 10 ^ j := heven'.mul_right _
  omega

-- Numbers with all their digits have the same exponent if they are equal.
theorem exponent_le (hp : 0 < places) (h : IsRounded places q d) (h' : IsRounded places q d')
    (heq : d.toRat = d'.toRat) : d'.exponent ≤ d.exponent := by
  by_contra hlt
  obtain ⟨j, hj⟩ := Int.eq_ofNat_of_zero_le (by omega : 0 ≤ d'.exponent - d.exponent - 1)
  have hexponent : d'.exponent = d.exponent + (j + 1 : Nat) := by omega
  rw [toRat_eq_mul d' hexponent, toRat] at heq
  have hsignificand : d.significand = d'.significand * 10 ^ (j + 1) := by
    exact_mod_cast mul_right_cancel₀ (ten_zpow_pos _).ne' heq
  have hlarge : 10 ^ (places - 1) * 10 ≤ d'.significand * 10 ^ (j + 1) :=
    Nat.mul_le_mul h'.low (Nat.le_self_pow (Nat.succ_ne_zero j) 10)
  have hhigh := h.high
  rw [← Nat.pow_succ, Nat.succ_eq_add_one, Nat.sub_add_cancel hp] at hlarge
  omega

theorem unique (hp : 0 < places) (h : IsRounded places q d) (h' : IsRounded places q d') :
    d = d' := by
  have heq : d.toRat = d'.toRat :=
    le_antisymm (not_lt.mp (not_toRat_lt hp h' h)) (not_lt.mp (not_toRat_lt hp h h'))
  have hexponent : d.exponent = d'.exponent :=
    le_antisymm (exponent_le hp h' h heq.symm) (exponent_le hp h h' heq)
  rw [toRat, toRat, hexponent] at heq
  have hsignificand : d.significand = d'.significand := by
    exact_mod_cast mul_right_cancel₀ (ten_zpow_pos _).ne' heq
  cases d
  cases d'
  cases hexponent
  cases hsignificand
  rfl

end IsRounded

-- The number of digits of a positive number says between which powers of ten it lies.
theorem exists_length_toDigits {n : Nat} (h : 0 < n) :
    ∃ k, (Nat.toDigits 10 n).length = k + 1 ∧ 10 ^ k ≤ n ∧ n < 10 ^ (k + 1) := by
  obtain ⟨k, hk⟩ := Nat.exists_eq_succ_of_ne_zero
    (Nat.ne_of_gt (Nat.length_toDigits_pos (b := 10) (n := n)))
  refine ⟨k, hk, ?_, ?_⟩
  · rcases Nat.eq_zero_or_pos k with rfl | hpos
    · exact h
    · have hnot : ¬(Nat.toDigits 10 n).length ≤ k := by omega
      rw [Nat.length_toDigits_le_iff (by decide) hpos] at hnot
      omega
  · exact (Nat.length_toDigits_le_iff (by decide) (Nat.succ_pos k)).mp (Nat.le_of_eq hk)

theorem leadingExponent_bounds (hnum : 0 < num) (hden : 0 < den) :
    (10 : ℚ) ^ leadingExponent num den ≤ num / den ∧
      (num / den : ℚ) < 10 ^ (leadingExponent num den + 1) := by
  have hnum' : (0 : ℚ) < num := by exact_mod_cast hnum
  have hden' : (0 : ℚ) < den := by exact_mod_cast hden
  unfold leadingExponent
  split
  · next hle =>
    obtain ⟨k, hk, hlow, hhigh⟩ := exists_length_toDigits (Nat.div_pos hle hden)
    have hexponent : ((Nat.toDigits 10 (num / den)).length : Int) - 1 = k := by omega
    rw [Nat.le_div_iff_mul_le hden] at hlow
    rw [Nat.div_lt_iff_lt_mul hden] at hhigh
    rw [hexponent, ← Nat.cast_succ, zpow_natCast, zpow_natCast, le_div_iff₀ hden',
      div_lt_iff₀ hden']
    exact ⟨by exact_mod_cast hlow, by exact_mod_cast hhigh⟩
  · next hlt =>
    obtain ⟨k, hk, hlow, hhigh⟩ := exists_length_toDigits
      (Nat.div_pos (by omega : num ≤ den - 1) hnum)
    rw [Nat.le_div_iff_mul_le hnum] at hlow
    rw [Nat.div_lt_iff_lt_mul hnum] at hhigh
    have hexponent : -((Nat.toDigits 10 ((den - 1) / num)).length : Int) + 1 = -k := by omega
    have hlow' : 10 ^ k * num < den := by omega
    have hhigh' : den ≤ 10 ^ (k + 1) * num := by omega
    rw [hexponent, hk, zpow_neg, zpow_neg, zpow_natCast, zpow_natCast, le_div_iff₀ hden',
      div_lt_iff₀ hden', inv_mul_le_iff₀ (by positivity), lt_inv_mul_iff₀ (by positivity)]
    exact ⟨by exact_mod_cast hhigh', by exact_mod_cast hlow'⟩

-- Rounding to a whole number of powers of ten takes the nearest number with as many digits as the
-- floor has.
theorem nearest_roundHalfEven {n m : Nat} {k : Int} (hp : 0 < places) (hm : 0 < m)
    (hfloor : 10 ^ (places - 1) ≤ n / m) (hq : q = n / m * 10 ^ k) {other : Decimal}
    (hother : other.significand < 10 ^ places) :
    |q - roundHalfEven n m * 10 ^ k| ≤ |q - other.toRat| ∧
      (other.toRat ≠ roundHalfEven n m * 10 ^ k →
        |q - roundHalfEven n m * 10 ^ k| = |q - other.toRat| → 2 ∣ roundHalfEven n m) := by
  obtain ⟨t, ht, ht0, ht1, hround⟩ := roundHalfEven_cases n hm
  have hgap := toRat_le_or_le (k := k) hp hfloor hother
  generalize n / m = f at hgap ht hround
  have hpos := ten_zpow_pos k
  rw [ht] at hq
  have hbelow : q - f * 10 ^ k = t * 10 ^ k := by rw [hq]; ring
  have habove : (f + 1) * 10 ^ k - q = (1 - t) * 10 ^ k := by rw [hq]; ring
  have ha : f * 10 ^ k ≤ q := by
    rw [← sub_nonneg, hbelow]
    exact mul_nonneg ht0 hpos.le
  have hb : q ≤ (f + 1) * 10 ^ k := by
    rw [← sub_nonneg, habove]
    exact mul_nonneg (sub_nonneg.mpr ht1) hpos.le
  have hr : ((roundHalfEven n m * 10 ^ k : ℚ) = f * 10 ^ k ∧
        q - f * 10 ^ k ≤ (f + 1) * 10 ^ k - q) ∨
      ((roundHalfEven n m * 10 ^ k : ℚ) = (f + 1) * 10 ^ k ∧
        (f + 1) * 10 ^ k - q ≤ q - f * 10 ^ k) := by
    rw [hbelow, habove]
    rcases hround with ⟨heq, hle, -⟩ | ⟨heq, hle, -⟩
    · exact .inl ⟨by rw [heq], mul_le_mul_of_nonneg_right hle hpos.le⟩
    · exact .inr ⟨by rw [heq]; push_cast; rfl, mul_le_mul_of_nonneg_right hle hpos.le⟩
  obtain ⟨hnearest, htie⟩ := abs_sub_le_of_neighbours ha hb hr hgap
  refine ⟨hnearest, fun hne heq => ?_⟩
  have hhalf : t = 1 - t := by
    have := htie hne heq
    rw [hbelow, habove] at this
    exact mul_right_cancel₀ hpos.ne' this
  rcases hround with ⟨heq, -, heven⟩ | ⟨heq, -, heven⟩
  · exact heq ▸ heven hhalf
  · exact heq ▸ heven hhalf

-- A zero at the end of the significand counts as much in the exponent.

theorem toDigits_ten_mul {m : Nat} (h : 0 < m) :
    Nat.toDigits 10 (10 * m) = Nat.toDigits 10 m ++ ['0'] := by
  rw [Nat.toDigits_of_base_le (by decide) (by omega), Nat.mul_div_cancel_left m (by decide),
    Nat.mul_mod_right]
  rfl

theorem digits_ten_mul {m : Nat} (h : 0 < m) (k : Int) :
    digits ⟨10 * m, k⟩ = digits ⟨m, k + 1⟩ := by
  unfold digits
  rw [toDigits_ten_mul h, List.reverse_append]
  rfl

theorem point_ten_mul {m : Nat} (h : 0 < m) (k : Int) :
    point ⟨10 * m, k⟩ = point ⟨m, k + 1⟩ := by
  unfold point
  rw [toDigits_ten_mul h, List.length_append]
  simp only [List.length_singleton]
  push_cast
  ring

-- A ratio is scaled to have as many digits before the point as are asked for, and then rounded.
theorem exists_ofRatio_eq (hp : 0 < places) (hnum : 0 < num) (hden : 0 < den) :
    ∃ n m k, ofRatio places num den = ⟨roundHalfEven n m, k⟩ ∧ 0 < m ∧
      (num / den : ℚ) = n / m * 10 ^ k ∧ 10 ^ (places - 1) ≤ n / m ∧ n / m < 10 ^ places := by
  obtain ⟨hlow, hhigh⟩ := leadingExponent_bounds hnum hden
  generalize hk : leadingExponent num den - (places - 1) = k
  have hm := shifted_pos num hden (-k)
  have hratio := shifted_ratio num den (-k)
  have hround : ofRatio places num den =
      ⟨roundHalfEven (shifted num den (-k)).1 (shifted num den (-k)).2, k⟩ := by
    subst hk
    rfl
  rw [hround]
  generalize (shifted num den (-k)).1 = n at hratio ⊢
  generalize (shifted num den (-k)).2 = m at hm hratio ⊢
  have hq : (num / den : ℚ) = n / m * 10 ^ k := by
    rw [hratio, mul_assoc, ← zpow_add₀ (by norm_num), neg_add_cancel, zpow_zero, mul_one]
  have hpos := ten_zpow_pos k
  have hm' : (0 : ℚ) < m := by exact_mod_cast hm
  refine ⟨n, m, k, rfl, hm, hq, ?_, ?_⟩
  · rw [(by omega : leadingExponent num den = (places - 1 : Nat) + k), zpow_add₀ (by norm_num),
      zpow_natCast, hq] at hlow
    have hle := (le_div_iff₀ hm').mp (le_of_mul_le_mul_right hlow hpos)
    exact (Nat.le_div_iff_mul_le hm).mpr (by exact_mod_cast hle)
  · rw [(by omega : leadingExponent num den + 1 = places + k), zpow_add₀ (by norm_num),
      zpow_natCast, hq] at hhigh
    have hlt := (div_lt_iff₀ hm').mp (lt_of_mul_lt_mul_right hhigh hpos.le)
    exact (Nat.div_lt_iff_lt_mul hm).mpr (by exact_mod_cast hlt)

-- The digits of a ratio are those of the number nearest to it.
theorem exists_isRounded_ofRatio (hp : 2 ≤ places) (hnum : 0 < num) (hden : 0 < den) :
    ∃ d, IsRounded places (num / den) d ∧ d.digits = (ofRatio places num den).digits ∧
      d.point = (ofRatio places num den).point := by
  obtain ⟨n, m, k, hround, hm, hq, hfloor, hceiling⟩ :=
    exists_ofRatio_eq (by omega : 0 < places) hnum hden
  rw [hround]
  have hnearest : ∀ other : Decimal, other.significand < 10 ^ places → _ := fun other hother =>
    nearest_roundHalfEven (by omega) hm hfloor hq hother
  have hle : roundHalfEven n m ≤ 10 ^ places :=
    (roundHalfEven_le n m).trans (Nat.succ_le_of_lt hceiling)
  rcases Nat.lt_or_eq_of_le hle with hlt | heq
  · refine ⟨_, ⟨hfloor.trans (le_roundHalfEven n m), hlt, ?_, ?_⟩, rfl, rfl⟩
    · exact fun other hother => (hnearest other hother).1
    · exact fun other hother => (hnearest other hother).2
  · -- Rounding went up to the next power of ten.
    have hten : (10 : Nat) ^ places = 10 * 10 ^ (places - 1) := by
      rw [← Nat.pow_succ', Nat.succ_eq_add_one, Nat.sub_add_cancel (by omega)]
    have htoRat : toRat ⟨10 ^ (places - 1), k + 1⟩ = roundHalfEven n m * 10 ^ k := by
      rw [heq, hten, toRat, zpow_add_one₀ (by norm_num)]
      push_cast
      ring
    refine ⟨⟨10 ^ (places - 1), k + 1⟩, ⟨Nat.le_refl _, ?_, ?_, ?_⟩, ?_, ?_⟩
    · exact Nat.pow_lt_pow_right (by decide) (by omega)
    · intro other hother
      rw [htoRat]
      exact (hnearest other hother).1
    · exact fun _ _ _ _ => dvd_pow (by decide) (by omega)
    · rw [heq, hten, digits_ten_mul (Nat.pow_pos (by decide))]
    · rw [heq, hten, point_ten_mul (Nat.pow_pos (by decide))]

end AbsEval.Decimal
