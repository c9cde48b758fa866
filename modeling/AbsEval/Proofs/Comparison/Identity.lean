import AbsEval.Operation.Comparison
import AbsEval.Proofs.Value.Admits

namespace AbsEval

namespace Interval

theorem contains_congr {range : Interval Double} {x y : Double} (h : x.position? = y.position?) :
    range.contains x = range.contains y := by
  rw [Bool.eq_iff_iff, contains_iff, contains_iff, Double.le_congr rfl h,
    Double.le_congr h rfl]

theorem numEq_eq_false_of_contains {range : Interval Double} {x y : Double}
    (hx : range.contains x) (hy : range.contains y = false) : x.numEq y = false := by
  rw [Bool.eq_false_iff]
  intro h
  rw [← contains_congr (Double.position?_of_numEq h), hx] at hy
  cases hy

theorem numEq_eq_false_of_isDisjoint {a b : Interval Double} {x y : Double} (hx : a.contains x)
    (hy : b.contains y) (h : a.isDisjoint b) : x.numEq y = false := by
  rw [Bool.eq_false_iff]
  intro hxy
  rw [contains_iff] at hx hy
  simp only [isDisjoint, Bool.or_eq_true, decide_eq_true_eq] at h
  rcases h with h | h
  · have hlt := Double.lt_of_lt_of_le (Double.lt_of_le_of_lt hx.2 h) hy.1
    exact Double.not_le_of_lt hlt (Double.le_of_numEq (Double.numEq_symm hxy))
  · have hlt := Double.lt_of_lt_of_le (Double.lt_of_le_of_lt hy.2 h) hx.1
    exact Double.not_le_of_lt hlt (Double.le_of_numEq hxy)

theorem isDisjoint_comm {α : Type} [LE α] [LT α] [DecidableLT α] (i j : Interval α) :
    i.isDisjoint j = j.isDisjoint i :=
  Bool.or_comm _ _

theorem ne_of_isDisjoint {a b : Interval Int32} {m n : Int32} (hm : a.contains m)
    (hn : b.contains n) (h : a.isDisjoint b) : m ≠ n := by
  rintro rfl
  rw [contains_iff] at hm hn
  simp only [isDisjoint, Bool.or_eq_true, decide_eq_true_eq] at h
  rcases h with h | h
  · exact Int32.lt_irrefl (Int32.lt_of_lt_of_le (Int32.lt_of_le_of_lt hm.2 h) hn.1)
  · exact Int32.lt_irrefl (Int32.lt_of_lt_of_le (Int32.lt_of_le_of_lt hn.2 h) hm.1)

end Interval

namespace Family

theorem intersect_iff {left right : List Family} :
    intersect left right ↔ ∃ family, family ∈ left ∧ family ∈ right := by
  simp [intersect]

theorem intersect_comm (left right : List Family) :
    intersect left right = intersect right left := by
  rw [Bool.eq_iff_iff, intersect_iff, intersect_iff]
  exact exists_congr fun _ => and_comm

end Family

namespace Value

variable {l r l' r' v c : Value} {b : Bool}

theorem not_intersect_of_admits (hl : l.Admits l') (hr : r.Admits r')
    (h : Family.intersect l.families r.families = false) :
    Family.intersect l'.families r'.families = false := by
  rw [Bool.eq_false_iff, ne_eq, Family.intersect_iff] at h ⊢
  rintro ⟨family, hfl, hfr⟩
  exact h ⟨family, families_subset_of_admits hl hfl, families_subset_of_admits hr hfr⟩

theorem same?_of_disjoint (h : Family.intersect l.families r.families = false) :
    l.same? r = some false := by
  simp [same?, h]

theorem same?_int (m n : Int32) : (int m).same? (int n) = some (decide (m = n)) := by
  simp [same?, families, Family.intersect, isConcrete]

theorem same?_float (x y : Double) : (float x).same? (float y) = some (x.numEq y) := by
  simp [same?, families, Family.intersect]

theorem float_notMem_of_meet (hl : l.isConcrete) (hr : r.isConcrete)
    (hmeet : Family.intersect l.families r.families)
    (h : ∀ x y, l = float x → r = float y → False) :
    .float ∉ l.families ∧ .float ∉ r.families := by
  obtain ⟨family, hfl, hfr⟩ := Family.intersect_iff.mp hmeet
  cases l <;> cases r <;> simp_all [families, isConcrete]

theorem same?_of_admits (hl : l.Admits l') (hr : r.Admits r') (h : l.same? r = some b) :
    l'.same? r' = some b := by
  have hsame := h
  unfold same? at h
  split at h
  · next hdisjoint =>
    cases h
    exact same?_of_disjoint (not_intersect_of_admits hl hr (by simpa using hdisjoint))
  · next hmeet =>
    split at h
    · next x y =>
      obtain ⟨x', rfl, hx⟩ := float_of_admits hl
      obtain ⟨y', rfl, hy⟩ := float_of_admits hr
      rw [same?_float, Double.numEq_congr hx hy]
      exact h
    · next a b' =>
      obtain rfl := eq_of_admits rfl (by simp [families]) hl
      obtain rfl := eq_of_admits rfl (by simp [families]) hr
      exact hsame
    · next range n =>
      obtain ⟨m, rfl, hm⟩ := intRange_of_admits hl
      obtain rfl := eq_of_admits rfl (by simp [families]) hr
      split at h
      · cases h
      · next hn =>
        cases h
        have hne : m ≠ n := by
          rintro rfl
          exact hn hm
        simp [same?_int, hne]
    · next n range =>
      obtain rfl := eq_of_admits rfl (by simp [families]) hl
      obtain ⟨m, rfl, hm⟩ := intRange_of_admits hr
      split at h
      · cases h
      · next hn =>
        cases h
        have hne : n ≠ m := by
          rintro rfl
          exact hn hm
        simp [same?_int, hne]
    · next range x =>
      obtain ⟨y, rfl, hy⟩ := floatRange_of_admits hl
      obtain ⟨x', rfl, hx⟩ := float_of_admits hr
      split at h
      · cases h
      · next hn =>
        cases h
        rw [Bool.not_eq_true, ← Interval.contains_congr hx] at hn
        rw [same?_float, Interval.numEq_eq_false_of_contains hy hn]
    · next x range =>
      obtain ⟨x', rfl, hx⟩ := float_of_admits hl
      obtain ⟨y, rfl, hy⟩ := floatRange_of_admits hr
      split at h
      · cases h
      · next hn =>
        cases h
        rw [Bool.not_eq_true, ← Interval.contains_congr hx] at hn
        have hne : x'.numEq y = false := by
          rw [Bool.eq_false_iff]
          intro hxy
          have hyx := Double.numEq_symm hxy
          rw [Interval.numEq_eq_false_of_contains hy hn] at hyx
          cases hyx
        rw [same?_float, hne]
    · next range range' =>
      obtain ⟨m, rfl, hm⟩ := intRange_of_admits hl
      obtain ⟨n, rfl, hn⟩ := intRange_of_admits hr
      split at h
      · next hd =>
        cases h
        simp [same?_int, Interval.ne_of_isDisjoint hm hn hd]
      · cases h
    · next range range' =>
      obtain ⟨x, rfl, hx⟩ := floatRange_of_admits hl
      obtain ⟨y, rfl, hy⟩ := floatRange_of_admits hr
      split at h
      · next hd =>
        cases h
        rw [same?_float, Interval.numEq_eq_false_of_isDisjoint hx hy hd]
      · cases h
    · next hfloats _ _ _ _ _ _ _ =>
      split at h
      · next hc =>
        rw [Bool.and_eq_true] at hc
        -- Two floats have been dealt with, and a float meets no other family.
        have hnot := float_notMem_of_meet hc.1 hc.2 (by simpa using hmeet) hfloats
        obtain rfl := eq_of_admits hc.1 hnot.1 hl
        obtain rfl := eq_of_admits hc.2 hnot.2 hr
        exact hsame
      · cases h

end Value

end AbsEval
