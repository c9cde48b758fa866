import AbsEval.Double.Order
import Mathlib.Tactic.Common

namespace AbsEval.Double

variable {x y z : Double}

theorem le_trans (h : x ≤ y) (k : y ≤ z) : x ≤ z := by
  obtain ⟨a, b, ha, hb, hab⟩ := le_iff.mp h
  obtain ⟨b', c, hb', hc, hbc⟩ := le_iff.mp k
  obtain rfl : b = b' := Option.some.inj (hb.symm.trans hb')
  exact le_iff.mpr ⟨a, c, ha, hc, by omega⟩

theorem lt_of_le_of_lt (h : x ≤ y) (k : y < z) : x < z := by
  obtain ⟨a, b, ha, hb, hab⟩ := le_iff.mp h
  obtain ⟨b', c, hb', hc, hbc⟩ := lt_iff.mp k
  obtain rfl : b = b' := Option.some.inj (hb.symm.trans hb')
  exact lt_iff.mpr ⟨a, c, ha, hc, by omega⟩

theorem lt_of_lt_of_le (h : x < y) (k : y ≤ z) : x < z := by
  obtain ⟨a, b, ha, hb, hab⟩ := lt_iff.mp h
  obtain ⟨b', c, hb', hc, hbc⟩ := le_iff.mp k
  obtain rfl : b = b' := Option.some.inj (hb.symm.trans hb')
  exact lt_iff.mpr ⟨a, c, ha, hc, by omega⟩

theorem le_of_lt (h : x < y) : x ≤ y := by
  obtain ⟨a, b, ha, hb, hab⟩ := lt_iff.mp h
  exact le_iff.mpr ⟨a, b, ha, hb, by omega⟩

theorem not_lt_of_le (h : x ≤ y) : ¬y < x := by
  intro k
  obtain ⟨a, b, ha, hb, hab⟩ := le_iff.mp h
  obtain ⟨b', a', hb', ha', hba⟩ := lt_iff.mp k
  obtain rfl : b = b' := Option.some.inj (hb.symm.trans hb')
  obtain rfl : a = a' := Option.some.inj (ha.symm.trans ha')
  omega

instance : Std.LawfulOrderLT Double where
  lt_iff x y := by
    simp only [le_iff, lt_iff]
    constructor
    · rintro ⟨a, b, ha, hb, hab⟩
      refine ⟨⟨a, b, ha, hb, by omega⟩, fun ⟨b', a', hb', ha', hle⟩ => ?_⟩
      rw [hb] at hb'
      rw [ha] at ha'
      cases hb'
      cases ha'
      omega
    · rintro ⟨⟨a, b, ha, hb, -⟩, hnot⟩
      refine ⟨a, b, ha, hb, ?_⟩
      by_contra hge
      exact hnot ⟨b, a, hb, ha, by omega⟩

theorem not_le_of_lt (h : x < y) : ¬y ≤ x :=
  fun k => not_lt_of_le k h

theorem le_of_numEq (h : x.numEq y) : x ≤ y := by
  obtain ⟨a, hx, hy⟩ := numEq_iff.mp h
  exact le_iff.mpr ⟨a, a, hx, hy, Int.le_refl a⟩

theorem numEq_symm (h : x.numEq y) : y.numEq x := by
  obtain ⟨a, hx, hy⟩ := numEq_iff.mp h
  exact numEq_iff.mpr ⟨a, hy, hx⟩

theorem numEq_comm (x y : Double) : x.numEq y = y.numEq x := by
  rw [Bool.eq_iff_iff]
  exact ⟨numEq_symm, numEq_symm⟩

theorem numEq_trans (h : x.numEq y) (k : y.numEq z) : x.numEq z := by
  obtain ⟨a, hx, hy⟩ := numEq_iff.mp h
  obtain ⟨b, hy', hz⟩ := numEq_iff.mp k
  obtain rfl : a = b := Option.some.inj (hy.symm.trans hy')
  exact numEq_iff.mpr ⟨a, hx, hz⟩

theorem numEq_of_le_of_le (h : x ≤ y) (k : y ≤ x) : x.numEq y := by
  obtain ⟨a, b, ha, hb, hab⟩ := le_iff.mp h
  obtain ⟨b', a', hb', ha', hba⟩ := le_iff.mp k
  obtain rfl : b = b' := Option.some.inj (hb.symm.trans hb')
  obtain rfl : a = a' := Option.some.inj (ha.symm.trans ha')
  obtain rfl : a = b := by omega
  exact numEq_iff.mpr ⟨a, ha, hb⟩

theorem le_self_of_le (h : x ≤ y) : x ≤ x := by
  obtain ⟨a, _, ha, _⟩ := le_iff.mp h
  exact le_iff.mpr ⟨a, a, ha, ha, Int.le_refl a⟩

-- Of two ranges, the one that ends before the other begins does not begin behind its end.
theorem not_lt_of_ordered {a b c d : Double} (hab : ¬b < a) (hcd : ¬d < c) (h : d ≤ a) :
    ¬b < c := by
  intro hbc
  obtain ⟨q, p, hq, hp, hqp⟩ := le_iff.mp h
  obtain ⟨m, n, hm, hn, hmn⟩ := lt_iff.mp hbc
  have hmp : ¬m < p := fun h => hab (lt_iff.mpr ⟨m, p, hm, hp, h⟩)
  have hqn : ¬q < n := fun h => hcd (lt_iff.mpr ⟨q, n, hq, hn, h⟩)
  omega

-- Numbers in one place are told apart by no comparison.

theorem position?_of_numEq (h : x.numEq y) : x.position? = y.position? := by
  obtain ⟨a, hx, hy⟩ := numEq_iff.mp h
  rw [hx, hy]

theorem numEq_congr {x' y' : Double} (hx : x.position? = x'.position?)
    (hy : y.position? = y'.position?) : x.numEq y = x'.numEq y' := by
  simp only [numEq, compares, hx, hy]

theorem le_congr {x' y' : Double} (hx : x.position? = x'.position?)
    (hy : y.position? = y'.position?) : x ≤ y ↔ x' ≤ y' := by
  rw [le_iff, le_iff, hx, hy]

theorem isZero_congr (h : x.position? = y.position?) : x.isZero = y.isZero := by
  simp only [isZero, h]

theorem position?_zero : zero.position? = some 0 := by
  unfold zero
  rw [ofUnits_of_representable false (by decide +kernel)]
  rfl

theorem isZero_iff : x.isZero ↔ x ≤ zero ∧ zero ≤ x := by
  simp only [isZero, beq_iff_eq, le_iff, position?_zero]
  constructor
  · intro h
    exact ⟨⟨0, 0, h, rfl, Int.le_refl 0⟩, ⟨0, 0, rfl, h, Int.le_refl 0⟩⟩
  · rintro ⟨⟨a, b, ha, hb, hab⟩, ⟨c, d, hc, hd, hcd⟩⟩
    cases hb
    cases hc
    obtain rfl : a = d := Option.some.inj (ha.symm.trans hd)
    rw [ha, show a = 0 by omega]

theorem unitsPerOne_pos : 0 < unitsPerOne := by
  decide +kernel

theorem natAbs_toInt_le (n : Int32) : n.toInt.natAbs ≤ 2 ^ 31 := by
  have hlow := n.le_toInt
  have hhigh := n.toInt_lt
  omega

theorem natAbs_toInt_lt (n : Int32) : n.toInt.natAbs < 2 ^ 53 :=
  Nat.lt_of_le_of_lt (natAbs_toInt_le n) (by decide)

-- Conversion of integers below 2^53 keeps their order.
theorem ofInt_le_ofInt {m n : Int} (hm : m.natAbs < 2 ^ 53) (hn : n.natAbs < 2 ^ 53) :
    ofInt m ≤ ofInt n ↔ m ≤ n := by
  have hpos : (0 : Int) < unitsPerOne := Int.natCast_pos.mpr unitsPerOne_pos
  rw [le_iff, position?_ofInt hm, position?_ofInt hn]
  constructor
  · rintro ⟨a, b, ha, hb, hab⟩
    cases ha
    cases hb
    exact Int.le_of_mul_le_mul_right hab hpos
  · intro h
    exact ⟨_, _, rfl, rfl, Int.mul_le_mul_of_nonneg_right h (Int.le_of_lt hpos)⟩

theorem ofInt_lt_ofInt {m n : Int} (hm : m.natAbs < 2 ^ 53) (hn : n.natAbs < 2 ^ 53) :
    ofInt m < ofInt n ↔ m < n := by
  have hpos : (0 : Int) < unitsPerOne := Int.natCast_pos.mpr unitsPerOne_pos
  rw [lt_iff, position?_ofInt hm, position?_ofInt hn]
  constructor
  · rintro ⟨a, b, ha, hb, hab⟩
    cases ha
    cases hb
    exact Int.lt_of_mul_lt_mul_right hab (Int.le_of_lt hpos)
  · intro h
    exact ⟨_, _, rfl, rfl, Int.mul_lt_mul_of_pos_right h hpos⟩

theorem numEq_ofInt {m n : Int} (hm : m.natAbs < 2 ^ 53) (hn : n.natAbs < 2 ^ 53) :
    (ofInt m).numEq (ofInt n) ↔ m = n := by
  constructor
  · intro h
    exact Int.le_antisymm ((ofInt_le_ofInt hm hn).mp (le_of_numEq h))
      ((ofInt_le_ofInt hn hm).mp (le_of_numEq (numEq_symm h)))
  · rintro rfl
    have hself : ofInt m ≤ ofInt m := (ofInt_le_ofInt hm hm).mpr (Int.le_refl m)
    exact numEq_of_le_of_le hself hself

end AbsEval.Double
