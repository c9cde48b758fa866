import AbsEval.Proofs.Double.Rounding

namespace AbsEval.Double

variable {a b c d : Int}

theorem ofInt_eq_finite {n : Int} (h : n.natAbs < 2 ^ 53) :
    ofInt n = finite (n < 0) (n.natAbs * unitsPerOne) (representable_mul_unitsPerOne h) :=
  ofUnits_of_representable _ _

theorem finite_add_finite {s t : Bool} {m n : Nat} {hm : Representable m} {hn : Representable n} :
    finite s m hm + finite t n hn =
      ofUnits (if withSign s m + withSign t n = 0 then s && t else withSign s m + withSign t n < 0)
        (withSign s m + withSign t n).natAbs 1 := by
  show add _ _ = _
  simp only [add]

theorem finite_sub_finite {s t : Bool} {m n : Nat} {hm : Representable m} {hn : Representable n} :
    finite s m hm - finite t n hn = finite s m hm + finite (!t) n hn := rfl

-- A sum of integers in units. The sign of zero is that of integers: there is only one.
theorem ofUnits_mul_unitsPerOne {k : Int} {sign : Bool} (h : k = 0 → sign = false) :
    ofUnits (if k * unitsPerOne = 0 then sign else k * unitsPerOne < 0)
      (k * unitsPerOne).natAbs 1 = ofInt k := by
  have hpos : (0 : Int) < unitsPerOne := Int.natCast_pos.mpr unitsPerOne_pos
  have hsign : (if k * unitsPerOne = 0 then sign else decide (k * unitsPerOne < 0)) =
      decide (k < 0) := by
    by_cases hk : k = 0
    · rw [hk, Int.zero_mul, if_pos rfl, h hk]
      rfl
    · rw [if_neg (Int.mul_ne_zero hk hpos.ne'), decide_eq_decide]
      exact ⟨fun hlt => neg_of_mul_neg_left hlt hpos.le,
        fun hlt => Int.mul_neg_of_neg_of_pos hlt hpos⟩
  rw [hsign, Int.natAbs_mul, Int.natAbs_natCast]
  rfl

-- Sums and differences of integers are rounded at most once.

theorem ofInt_add_ofInt (ha : a.natAbs < 2 ^ 53) (hb : b.natAbs < 2 ^ 53) :
    ofInt a + ofInt b = ofInt (a + b) := by
  rw [ofInt_eq_finite ha, ofInt_eq_finite hb, finite_add_finite, withSign_natAbs_mul,
    withSign_natAbs_mul, ← Int.add_mul]
  refine ofUnits_mul_unitsPerOne fun h => ?_
  simp only [Bool.and_eq_false_iff, decide_eq_false_iff_not]
  omega

theorem ofInt_sub_ofInt (ha : a.natAbs < 2 ^ 53) (hb : b.natAbs < 2 ^ 53) :
    ofInt a - ofInt b = ofInt (a - b) := by
  rw [ofInt_eq_finite ha, ofInt_eq_finite hb, finite_sub_finite, finite_add_finite, withSign_not,
    withSign_natAbs_mul, withSign_natAbs_mul, ← Int.sub_eq_add_neg, ← Int.sub_mul]
  refine ofUnits_mul_unitsPerOne fun h => ?_
  simp only [Bool.and_eq_false_iff, decide_eq_false_iff_not, Bool.not_eq_false',
    decide_eq_true_eq]
  omega

-- The least and the greatest of integers are found among the floats as well.

theorem lesser_ofInt (ha : a.natAbs < 2 ^ 53) (hb : b.natAbs < 2 ^ 53) :
    lesser (ofInt a) (ofInt b) = ofInt (min a b) := by
  simp only [lesser, ofInt_le_ofInt ha hb, ← apply_ite ofInt, Int.min_def]

theorem greater_ofInt (ha : a.natAbs < 2 ^ 53) (hb : b.natAbs < 2 ^ 53) :
    greater (ofInt a) (ofInt b) = ofInt (max a b) := by
  simp only [greater, ofInt_le_ofInt hb ha, ← apply_ite ofInt, Int.max_comm a b, Int.max_def]

theorem lesser_infinite_ofInt (ha : a.natAbs < 2 ^ 53) :
    lesser (infinite false) (ofInt a) = ofInt a := by
  refine if_neg fun hle => ?_
  obtain ⟨p, q, hp, hq, hpq⟩ := le_iff.mp hle
  obtain rfl := Option.some.inj hp
  obtain rfl := Option.some.inj ((position?_ofInt ha).symm.trans hq)
  have hlimit := (representable_mul_unitsPerOne ha).1
  rw [withSign, if_neg Bool.false_ne_true] at hpq
  rw [← Int.natAbs_natCast unitsPerOne, ← Int.natAbs_mul] at hlimit
  omega

theorem greater_infinite_ofInt (ha : a.natAbs < 2 ^ 53) :
    greater (infinite true) (ofInt a) = ofInt a := by
  refine if_neg fun hle => ?_
  obtain ⟨q, p, hq, hp, hqp⟩ := le_iff.mp hle
  obtain rfl := Option.some.inj hp
  obtain rfl := Option.some.inj ((position?_ofInt ha).symm.trans hq)
  have hlimit := (representable_mul_unitsPerOne ha).1
  rw [withSign, if_pos rfl] at hqp
  rw [← Int.natAbs_natCast unitsPerOne, ← Int.natAbs_mul] at hlimit
  omega

-- The steps are rewritten one by one: the kernel must not compute with the floats.

theorem foldl_lesser_ofInt (ha : a.natAbs < 2 ^ 53) (hb : b.natAbs < 2 ^ 53)
    (hc : c.natAbs < 2 ^ 53) (hd : d.natAbs < 2 ^ 53) :
    [ofInt a, ofInt b, ofInt c, ofInt d].foldl lesser (infinite false) =
      ofInt (min (min a b) (min c d)) := by
  rw [List.foldl_cons, lesser_infinite_ofInt ha, List.foldl_cons, lesser_ofInt ha hb,
    List.foldl_cons, lesser_ofInt (by omega) hc, List.foldl_cons, lesser_ofInt (by omega) hd,
    List.foldl_nil, Int.min_assoc]

theorem foldl_greater_ofInt (ha : a.natAbs < 2 ^ 53) (hb : b.natAbs < 2 ^ 53)
    (hc : c.natAbs < 2 ^ 53) (hd : d.natAbs < 2 ^ 53) :
    [ofInt a, ofInt b, ofInt c, ofInt d].foldl greater (infinite true) =
      ofInt (max (max a b) (max c d)) := by
  rw [List.foldl_cons, greater_infinite_ofInt ha, List.foldl_cons, greater_ofInt ha hb,
    List.foldl_cons, greater_ofInt (by omega) hc, List.foldl_cons, greater_ofInt (by omega) hd,
    List.foldl_nil, Int.max_assoc]

theorem isNaN_ofInt (ha : a.natAbs < 2 ^ 53) : (ofInt a).isNaN = false := by
  have hplace := position?_ofInt ha
  generalize ofInt a = x at hplace ⊢
  cases x with
  | notANumber => cases hplace
  | _ => rfl

end AbsEval.Double
