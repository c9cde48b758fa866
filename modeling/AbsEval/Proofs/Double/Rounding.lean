import AbsEval.Proofs.Double.Order
import Mathlib.Algebra.Order.Field.Basic
import Mathlib.Algebra.Order.Field.Rat
import Mathlib.Data.Rat.Lemmas
import Mathlib.Tactic.FieldSimp
import Mathlib.Tactic.Linarith
import Mathlib.Tactic.Positivity
import Mathlib.Tactic.Ring

namespace AbsEval

variable {num den num' den' : Nat}

theorem div_le_div_of_cross (hden : 0 < den) (hden' : 0 < den') (h : num * den' ≤ num' * den) :
    num / den ≤ num' / den' := by
  rw [Nat.le_div_iff_mul_le hden']
  refine Nat.le_of_mul_le_mul_right ?_ hden
  calc num / den * den' * den = num / den * den * den' := Nat.mul_right_comm _ _ _
    _ ≤ num * den' := Nat.mul_le_mul_right _ (Nat.div_mul_le_self num den)
    _ ≤ num' * den := h

-- Rounding keeps the order of the quotients. Where both have the same integer part, the remainders
-- decide.
theorem roundHalfEven_le_roundHalfEven (hden : 0 < den) (hden' : 0 < den')
    (h : num * den' ≤ num' * den) : roundHalfEven num den ≤ roundHalfEven num' den' := by
  rcases Nat.lt_or_eq_of_le (div_le_div_of_cross hden hden' h) with hlt | heq
  · have hle := roundHalfEven_le num den
    have hge := le_roundHalfEven num' den'
    omega
  · have hrem : num % den * den' ≤ num' % den' * den := by
      have hsplit := congrArg (· * den') (Nat.div_add_mod num den)
      have hsplit' := congrArg (· * den) (Nat.div_add_mod num' den')
      simp only [Nat.add_mul, heq] at hsplit hsplit'
      have hcomm : den * (num' / den') * den' = den' * (num' / den') * den := by ring
      omega
    have hup : den ≤ 2 * (num % den) → den' ≤ 2 * (num' % den') := by
      intro hhalf
      refine Nat.le_of_mul_le_mul_right ?_ hden
      have := Nat.mul_le_mul_right den' hhalf
      nlinarith
    have hstrict : den < 2 * (num % den) → den' < 2 * (num' % den') := by
      intro hhalf
      refine Nat.lt_of_mul_lt_mul_right (a := den) ?_
      have := Nat.mul_lt_mul_of_pos_right hhalf hden'
      nlinarith
    unfold roundHalfEven
    rw [heq]
    split <;> split <;> omega

namespace Double

theorem spacing_le_spacing {units units' : Nat} (h : units ≤ units') :
    spacing units ≤ spacing units' :=
  spacing_le_of_lt (Nat.lt_of_le_of_lt h (lt_two_pow_spacing units'))

theorem roundUnits_le (num den : Nat) :
    roundUnits num den ≤ 2 ^ (53 + spacing (num / den)) := by
  rw [Nat.pow_add]
  exact Nat.mul_le_mul_right _ (roundHalfEven_spacing_le num den)

-- Where the spacing is above one unit, all 53 bits are used.
theorem two_pow_le_div (h : 0 < spacing (num / den)) :
    2 ^ 52 ≤ num / (den * 2 ^ spacing (num / den)) := by
  have hne : num / den ≠ 0 := by
    intro h0
    simp [h0, spacing] at h
  have hlog : (num / den).log2 = 52 + spacing (num / den) := by
    unfold spacing at h ⊢
    omega
  have hle : 2 ^ (52 + spacing (num / den)) ≤ num / den := hlog ▸ Nat.log2_self_le hne
  rw [Nat.pow_add] at hle
  rwa [← Nat.div_div_eq_div_mul, Nat.le_div_iff_mul_le (Nat.two_pow_pos _)]

theorem le_roundUnits (h : 0 < spacing (num / den)) :
    2 ^ (52 + spacing (num / den)) ≤ roundUnits num den := by
  rw [Nat.pow_add]
  exact Nat.mul_le_mul_right _ (Nat.le_trans (two_pow_le_div h) (le_roundHalfEven _ _))

theorem roundUnits_le_roundUnits (hden : 0 < den) (hden' : 0 < den')
    (h : num * den' ≤ num' * den) : roundUnits num den ≤ roundUnits num' den' := by
  rcases Nat.lt_or_eq_of_le (spacing_le_spacing (div_le_div_of_cross hden hden' h)) with hlt | heq
  · calc roundUnits num den ≤ 2 ^ (53 + spacing (num / den)) := roundUnits_le num den
      _ ≤ 2 ^ (52 + spacing (num' / den')) := Nat.pow_le_pow_right Nat.two_pos (by omega)
      _ ≤ roundUnits num' den' := le_roundUnits (by omega)
  · unfold roundUnits
    rw [heq]
    have hpos := Nat.two_pow_pos (spacing (num' / den'))
    refine Nat.mul_le_mul_right _ (roundHalfEven_le_roundHalfEven (Nat.mul_pos hden hpos)
      (Nat.mul_pos hden' hpos) ?_)
    rw [← Nat.mul_assoc, ← Nat.mul_assoc]
    exact Nat.mul_le_mul_right _ h

-- Only the quotient matters.
theorem roundUnits_congr (hden : 0 < den) (hden' : 0 < den') (h : num * den' = num' * den) :
    roundUnits num den = roundUnits num' den' :=
  Nat.le_antisymm (roundUnits_le_roundUnits hden hden' h.le)
    (roundUnits_le_roundUnits hden' hden h.ge)

-- The place of the double nearest to a number, both counted in units.
def nearest (q : ℚ) : Int :=
  withSign (q < 0) (min (roundUnits q.num.natAbs q.den) unitLimit)

theorem cross_of_abs_le {q r : ℚ} (h : |q| ≤ |r|) :
    q.num.natAbs * r.den ≤ r.num.natAbs * q.den := by
  rw [Rat.abs_def, Rat.abs_def, Rat.divInt_le_divInt] at h
  · exact_mod_cast h
  · exact_mod_cast q.pos
  · exact_mod_cast r.pos

theorem nearest_le_nearest {q r : ℚ} (h : q ≤ r) : nearest q ≤ nearest r := by
  have hround : |q| ≤ |r| → min (roundUnits q.num.natAbs q.den) unitLimit ≤
      min (roundUnits r.num.natAbs r.den) unitLimit := fun h =>
    min_le_min_right _ (roundUnits_le_roundUnits q.pos r.pos (cross_of_abs_le h))
  have hround' : |r| ≤ |q| → min (roundUnits r.num.natAbs r.den) unitLimit ≤
      min (roundUnits q.num.natAbs q.den) unitLimit := fun h =>
    min_le_min_right _ (roundUnits_le_roundUnits r.pos q.pos (cross_of_abs_le h))
  unfold nearest withSign
  by_cases hq : q < 0 <;> by_cases hr : r < 0
  · have := hround' (by rw [abs_of_neg hq, abs_of_neg hr]; linarith)
    simp only [hq, hr, decide_true, ↓reduceIte]
    omega
  · simp only [hq, hr, decide_true, decide_false, Bool.false_eq_true, ↓reduceIte]
    omega
  · exact absurd (h.trans_lt hr) hq
  · have := hround (by rw [abs_of_nonneg (not_lt.mp hq), abs_of_nonneg (not_lt.mp hr)]; exact h)
    simp only [hq, hr, decide_false, Bool.false_eq_true, ↓reduceIte]
    omega

theorem roundUnits_of_abs_eq {q : ℚ} (hden : 0 < den) (h : |q| = num / den) :
    roundUnits num den = roundUnits q.num.natAbs q.den := by
  refine roundUnits_congr hden q.pos ?_
  rw [Rat.abs_def, Rat.divInt_eq_div] at h
  have hden' : (den : ℚ) ≠ 0 := by positivity
  have hq : (q.den : ℚ) ≠ 0 := by exact_mod_cast q.den_ne_zero
  simp only [Int.cast_natCast] at h
  rw [div_eq_div_iff hq hden'] at h
  exact_mod_cast h.symm

theorem roundUnits_zero (den : Nat) : roundUnits 0 den = 0 := by
  simp [roundUnits, roundHalfEven]

-- What an operation gives is the double nearest to the exact result.
theorem position?_ofUnits (negative : Bool) (num : Nat) (hden : 0 < den) :
    (ofUnits negative num den).position? = some (nearest (withSign negative num / den)) := by
  have hplace : (ofUnits negative num den).position? =
      some (withSign negative (min (roundUnits num den) unitLimit)) := by
    unfold ofUnits
    split
    · next hlt => rw [Nat.min_eq_left (Nat.le_of_lt hlt)]; rfl
    · next hge => rw [Nat.min_eq_right (Nat.le_of_not_lt hge)]; rfl
  have hpos : (0 : ℚ) < den := by exact_mod_cast hden
  have habs : |((withSign negative num : Int) : ℚ) / den| = num / den := by
    rw [abs_div, abs_of_pos hpos]
    cases negative <;> simp [withSign]
  rw [hplace, nearest, ← roundUnits_of_abs_eq hden habs]
  by_cases hnum : num = 0
  · subst hnum
    simp [roundUnits_zero, withSign]
  · have hsign : decide (((withSign negative num : Int) : ℚ) / den < 0) = negative := by
      have hn : (0 : ℚ) < num := by positivity
      cases negative
      · simp only [withSign, Bool.false_eq_true, ↓reduceIte, Int.cast_natCast,
          decide_eq_false_iff_not, not_lt]
        positivity
      · simp only [withSign, ↓reduceIte, Int.cast_neg, Int.cast_natCast, decide_eq_true_eq]
        exact div_neg_of_neg_of_pos (neg_neg_of_pos hn) hpos
    rw [hsign]

-- Numbers that are doubles are met exactly.
theorem nearest_of_representable {n : Int} (h : Representable n.natAbs) : nearest n = n := by
  have hround : min (roundUnits n.natAbs 1) unitLimit = n.natAbs := by
    rw [roundUnits_of_representable h, Nat.min_eq_left (Nat.le_of_lt h.1)]
  unfold nearest withSign
  simp only [Rat.num_intCast, Rat.den_intCast, hround, Int.cast_lt_zero, decide_eq_true_eq]
  omega

-- No number of at least one unit is rounded to zero.
theorem nearest_ne_zero {q : ℚ} (h : 1 ≤ |q|) : nearest q ≠ 0 := by
  have hone : nearest ((1 : Int) : ℚ) = 1 := nearest_of_representable (by decide +kernel)
  have hneg : nearest ((-1 : Int) : ℚ) = -1 := nearest_of_representable (by decide +kernel)
  rcases le_abs'.mp h with hq | hq
  · have := nearest_le_nearest (r := ((-1 : Int) : ℚ)) (q := q) (by simpa using hq)
    omega
  · have := nearest_le_nearest (q := ((1 : Int) : ℚ)) (r := q) (by simpa using hq)
    omega

-- Away from zero a number tells its sign and its magnitude.
theorem withSign_inj {s t : Bool} {m n : Nat} (h : withSign s m = withSign t n)
    (hm : withSign s m ≠ 0) : s = t ∧ m = n := by
  unfold withSign at h hm
  cases s <;> cases t <;> simp only [Bool.false_eq_true, ↓reduceIte] at h hm <;> grind

theorem natAbs_withSign (s : Bool) (m : Nat) : (withSign s m).natAbs = m := by
  cases s <;> simp [withSign]

-- Away from zero the place tells a double. The infinities are alone in theirs, because the units of
-- a finite number stay below the limit.
theorem eq_of_position?_eq {x y : Double} {p : Int} (hx : x.position? = some p)
    (hy : y.position? = some p) (hp : p ≠ 0) : x = y := by
  cases x with
  | notANumber => cases hx
  | infinite s =>
    obtain rfl := Option.some.inj hx
    cases y with
    | notANumber => cases hy
    | infinite t =>
      obtain ⟨rfl, -⟩ := withSign_inj (Option.some.inj hy).symm hp
      rfl
    | finite t b hb =>
      obtain ⟨-, h⟩ := withSign_inj (Option.some.inj hy).symm hp
      exact absurd hb.1 (Nat.not_lt_of_le h.le)
  | finite s a ha =>
    obtain rfl := Option.some.inj hx
    cases y with
    | notANumber => cases hy
    | infinite t =>
      obtain ⟨-, h⟩ := withSign_inj (Option.some.inj hy).symm hp
      exact absurd ha.1 (Nat.not_lt_of_le h.ge)
    | finite t b hb =>
      obtain ⟨rfl, rfl⟩ := withSign_inj (Option.some.inj hy).symm hp
      rfl

section Operations

variable {x y : Double} {a b : Int}

theorem exists_finite (hx : x.position? = some a) (ha : a.natAbs < unitLimit) :
    ∃ negative units fits, x = finite negative units fits ∧ withSign negative units = a := by
  cases x with
  | notANumber => cases hx
  | infinite negative =>
    obtain rfl := Option.some.inj hx
    rw [natAbs_withSign] at ha
    exact absurd ha (Nat.lt_irrefl _)
  | finite negative units fits => exact ⟨_, _, _, rfl, Option.some.inj hx⟩

theorem withSign_not (s : Bool) (m : Nat) : withSign (!s) m = -withSign s m := by
  cases s <;> simp [withSign]

theorem position?_neg (hx : x.position? = some a) : (-x).position? = some (-a) := by
  show x.neg.position? = _
  cases x with
  | notANumber => cases hx
  | infinite negative =>
    obtain rfl := Option.some.inj hx
    simp only [neg, position?, withSign_not]
  | finite negative units fits =>
    obtain rfl := Option.some.inj hx
    simp only [neg, position?, withSign_not]

theorem withSign_tdiv (s : Bool) (m k : Nat) : withSign s (m / k) = (withSign s m).tdiv k := by
  cases s with
  | false => exact Int.ofNat_tdiv m k
  | true => exact (congrArg Neg.neg (Int.ofNat_tdiv m k)).trans (Int.neg_tdiv m k).symm

-- A finite number is cut off by a division of its place.

theorem truncate?_of_position? (hx : x.position? = some a) (ha : a.natAbs < unitLimit) :
    x.truncate? = some (a.tdiv unitsPerOne) := by
  obtain ⟨s, m, hm, rfl, rfl⟩ := exists_finite hx ha
  exact congrArg some (withSign_tdiv s m unitsPerOne)

theorem exists_position?_of_truncate? {n : Int} (h : x.truncate? = some n) :
    ∃ a, x.position? = some a ∧ a.natAbs < unitLimit ∧ n = a.tdiv unitsPerOne := by
  cases x with
  | notANumber | infinite => cases h
  | finite s m hm =>
    obtain rfl := Option.some.inj h
    refine ⟨withSign s m, rfl, ?_, withSign_tdiv s m unitsPerOne⟩
    rw [natAbs_withSign]
    exact hm.1

-- What lies between numbers that have an integer part has one as well, and it lies between theirs.
theorem exists_truncate?_between {z : Double} {m n : Int} (hx : x.truncate? = some m)
    (hy : y.truncate? = some n) (hxz : x ≤ z) (hzy : z ≤ y) :
    ∃ i, z.truncate? = some i ∧ m ≤ i ∧ i ≤ n := by
  obtain ⟨a, ha, halimit, rfl⟩ := exists_position?_of_truncate? hx
  obtain ⟨b, hb, hblimit, rfl⟩ := exists_position?_of_truncate? hy
  obtain ⟨a', c, ha', hc, hac⟩ := le_iff.mp hxz
  obtain ⟨c', b', hc', hb', hcb⟩ := le_iff.mp hzy
  obtain rfl : a = a' := Option.some.inj (ha.symm.trans ha')
  obtain rfl : b = b' := Option.some.inj (hb.symm.trans hb')
  obtain rfl : c = c' := Option.some.inj (hc.symm.trans hc')
  have hpos : (0 : Int) < unitsPerOne := Int.natCast_pos.mpr unitsPerOne_pos
  have hclimit : c.natAbs < unitLimit := by
    generalize unitLimit = limit at halimit hblimit ⊢
    omega
  exact ⟨_, truncate?_of_position? hc hclimit, Int.tdiv_le_tdiv hpos hac, Int.tdiv_le_tdiv hpos hcb⟩

theorem position?_add (hx : x.position? = some a) (hy : y.position? = some b)
    (ha : a.natAbs < unitLimit) (hb : b.natAbs < unitLimit) :
    (x + y).position? = some (nearest (a + b : Int)) := by
  obtain ⟨s, m, hm, rfl, rfl⟩ := exists_finite hx ha
  obtain ⟨t, n, hn, rfl, rfl⟩ := exists_finite hy hb
  show (add (finite s m hm) (finite t n hn)).position? = _
  simp only [add]
  rw [position?_ofUnits _ _ Nat.one_pos]
  generalize withSign s m + withSign t n = sum
  have hsum : withSign (if sum = 0 then s && t else sum < 0) sum.natAbs = sum := by
    unfold withSign
    by_cases h0 : sum = 0
    · simp [h0]
    · simp only [h0, ↓reduceIte, decide_eq_true_eq]
      omega
  rw [hsum, Nat.cast_one, div_one]

theorem withSign_mul (s t : Bool) (m n : Nat) :
    withSign (s != t) (m * n) = withSign s m * withSign t n := by
  cases s <;> cases t <;> simp [withSign]

theorem position?_mul (hx : x.position? = some a) (hy : y.position? = some b)
    (ha : a.natAbs < unitLimit) (hb : b.natAbs < unitLimit) :
    (x * y).position? = some (nearest ((a * b : Int) / unitsPerOne)) := by
  obtain ⟨s, m, hm, rfl, rfl⟩ := exists_finite hx ha
  obtain ⟨t, n, hn, rfl, rfl⟩ := exists_finite hy hb
  show (mul (finite s m hm) (finite t n hn)).position? = _
  simp only [mul]
  rw [position?_ofUnits _ _ unitsPerOne_pos, withSign_mul]

theorem withSign_div (s t : Bool) (m n k : Nat) :
    (withSign (s != t) (m * k) : ℚ) / n = (withSign s m * k : Int) / withSign t n := by
  cases s <;> cases t <;> simp [withSign, neg_div, div_neg]

theorem position?_div (hx : x.position? = some a) (hy : y.position? = some b)
    (ha : a.natAbs < unitLimit) (hb : b.natAbs < unitLimit) (hb0 : b ≠ 0) :
    (x / y).position? = some (nearest ((a * unitsPerOne : Int) / b)) := by
  obtain ⟨s, m, hm, rfl, rfl⟩ := exists_finite hx ha
  obtain ⟨t, n, hn, rfl, rfl⟩ := exists_finite hy hb
  have hn0 : n ≠ 0 := by
    rintro rfl
    cases t <;> exact hb0 rfl
  show (div (finite s m hm) (finite t n hn)).position? = _
  simp only [div]
  rw [if_pos hn0, position?_ofUnits _ _ (Nat.pos_of_ne_zero hn0), withSign_div]

end Operations

end Double

end AbsEval
