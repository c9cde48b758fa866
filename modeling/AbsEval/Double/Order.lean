import AbsEval.Double.Basic

namespace AbsEval.Double

theorem le_iff {x y : Double} :
    x ≤ y ↔ ∃ a b, x.position? = some a ∧ y.position? = some b ∧ a ≤ b := by
  show compares _ x y = true ↔ _
  unfold compares
  cases x.position? <;> cases y.position? <;> simp

theorem lt_iff {x y : Double} :
    x < y ↔ ∃ a b, x.position? = some a ∧ y.position? = some b ∧ a < b := by
  show compares _ x y = true ↔ _
  unfold compares
  cases x.position? <;> cases y.position? <;> simp

theorem numEq_iff {x y : Double} :
    x.numEq y = true ↔ ∃ a, x.position? = some a ∧ y.position? = some a := by
  unfold numEq compares
  cases x.position? <;> cases y.position? <;> simp
  exact eq_comm

theorem position?_eq_none_iff {x : Double} : x.position? = none ↔ x.isNaN := by
  cases x <;> simp [position?, isNaN]

theorem two_pow_le_unitLimit {k : Nat} (h : k ≤ 2098) : 2 ^ k ≤ unitLimit := by
  unfold unitLimit
  exact @Nat.pow_le_pow_right 2 Nat.two_pos k 2098 h

-- A number with at most 53 significant bits is a double, if it is not too large.
theorem representable_mul_two_pow {m k : Nat} (hm : m < 2 ^ 53) (hk : 53 + k ≤ 2098) :
    Representable (m * 2 ^ k) := by
  have hlt : m * 2 ^ k < 2 ^ (53 + k) := by
    rw [Nat.pow_add]
    exact Nat.mul_lt_mul_of_pos_right hm (Nat.two_pow_pos k)
  refine ⟨Nat.lt_of_lt_of_le hlt (two_pow_le_unitLimit hk), ?_⟩
  exact Nat.dvd_trans (Nat.pow_dvd_pow 2 (spacing_le_of_lt hlt)) (Nat.dvd_mul_left _ _)

-- Integers below 2^53 are doubles.
theorem representable_mul_unitsPerOne {m : Nat} (h : m < 2 ^ 53) :
    Representable (m * unitsPerOne) := by
  unfold unitsPerOne
  exact @representable_mul_two_pow m 1074 h (by decide)

theorem ofUnits_of_representable (negative : Bool) {units : Nat} (h : Representable units) :
    ofUnits negative units 1 = finite negative units h := by
  have hr := roundUnits_of_representable h
  unfold ofUnits
  simp only [hr, h.1, ↓reduceDIte]

theorem withSign_natAbs_mul (n : Int) (k : Nat) :
    withSign (decide (n < 0)) (n.natAbs * k) = n * k := by
  unfold withSign
  by_cases hn : n < 0
  · simp only [hn, decide_true, ↓reduceIte, Int.natCast_mul, ← Int.neg_mul]
    congr 1
    omega
  · simp only [hn, decide_false, Bool.false_eq_true, ↓reduceIte, Int.natCast_mul]
    congr 1
    omega

-- So their order is kept.
theorem position?_ofInt {n : Int} (h : n.natAbs < 2 ^ 53) :
    (ofInt n).position? = some (n * unitsPerOne) := by
  unfold ofInt
  rw [ofUnits_of_representable _ (representable_mul_unitsPerOne h)]
  exact congrArg some (withSign_natAbs_mul n unitsPerOne)

end AbsEval.Double
