import AbsEval.Operation.Comparison
import AbsEval.Proofs.Value.Admits

namespace AbsEval

namespace Span

-- The numbers of the one span are numbers of the other. A span whose ends are no numbers is within
-- itself only.
def Within (s t : Span) : Prop :=
  (s = t ∧ ¬s.high < s.low) ∨ (t.low ≤ s.low ∧ s.low ≤ s.high ∧ s.high ≤ t.high)

variable {l r l' r' : Span}

theorem Within.ordered (h : l'.Within l) : ¬l'.high < l'.low := by
  rcases h with ⟨-, h⟩ | ⟨-, h, -⟩
  · exact h
  · exact Double.not_lt_of_le h

theorem Within.high_lt_low (hl : l'.Within l) (hr : r'.Within r) (h : l.high < r.low) :
    l'.high < r'.low := by
  rcases hl with ⟨rfl, -⟩ | ⟨-, -, hl⟩ <;> rcases hr with ⟨rfl, -⟩ | ⟨hr, -, -⟩
  · exact h
  · exact Double.lt_of_lt_of_le h hr
  · exact Double.lt_of_le_of_lt hl h
  · exact Double.lt_of_le_of_lt hl (Double.lt_of_lt_of_le h hr)

theorem Within.high_le_low (hl : l'.Within l) (hr : r'.Within r) (h : l.high ≤ r.low) :
    l'.high ≤ r'.low := by
  rcases hl with ⟨rfl, -⟩ | ⟨-, -, hl⟩ <;> rcases hr with ⟨rfl, -⟩ | ⟨hr, -, -⟩
  · exact h
  · exact Double.le_trans h hr
  · exact Double.le_trans hl h
  · exact Double.le_trans hl (Double.le_trans h hr)

-- A span inside a single number is that number.
theorem Within.numEq_low (hl : l'.Within l) (h : l.low.numEq l.high) :
    l'.low.numEq l'.high ∧ l'.low.numEq l.low := by
  rcases hl with ⟨rfl, -⟩ | ⟨hlow, hmid, hhigh⟩
  · exact ⟨h, Double.numEq_trans h (Double.numEq_symm h)⟩
  · have hback : l.high ≤ l.low := Double.le_of_numEq (Double.numEq_symm h)
    have hturn : l'.high ≤ l'.low := Double.le_trans hhigh (Double.le_trans hback hlow)
    exact ⟨Double.numEq_of_le_of_le hmid hturn,
      Double.numEq_of_le_of_le (Double.le_trans hmid (Double.le_trans hhigh hback)) hlow⟩

theorem point_within {x y : Double} (h : x.numEq y) : (point y).Within (point x) :=
  .inr ⟨Double.le_of_numEq h, Double.le_of_numEq (Double.numEq_trans (Double.numEq_symm h) h),
    Double.le_of_numEq (Double.numEq_symm h)⟩

theorem point_within_self (x : Double) : (point x).Within (point x) := by
  refine .inl ⟨rfl, fun h => ?_⟩
  obtain ⟨a, b, ha, hb, hab⟩ := Double.lt_iff.mp h
  obtain rfl : a = b := Option.some.inj (ha.symm.trans hb)
  exact absurd hab (Int.lt_irrefl a)

theorem point_within_range {range : Interval Double} {x : Double} (h : range.contains x) :
    (point x).Within ⟨range.start, range.stop⟩ := by
  simp only [Interval.contains, Bool.and_eq_true, decide_eq_true_eq] at h
  exact .inr ⟨h.1, Double.le_self_of_le h.2, h.2⟩

theorem ofInts_within {a b c d : Int} (hc : c.natAbs < 2 ^ 53) (hd : d.natAbs < 2 ^ 53)
    (hca : c ≤ a) (hab : a ≤ b) (hbd : b ≤ d) : (ofInts a b).Within (ofInts c d) := by
  have ha : a.natAbs < 2 ^ 53 := by omega
  have hb : b.natAbs < 2 ^ 53 := by omega
  right
  simp only [ofInts]
  exact ⟨(Double.ofInt_le_ofInt hc ha).mpr hca, (Double.ofInt_le_ofInt ha hb).mpr hab,
    (Double.ofInt_le_ofInt hb hd).mpr hbd⟩

-- An open truth spans both truths.
theorem ofTruth?_within {t t' : Option Bool} (h : ∀ b, t = some b → t' = some b) :
    (ofTruth? t').Within (ofTruth? t) := by
  cases t with
  | some b =>
    rw [h b rfl]
    cases b <;> exact ofInts_within (by decide) (by decide) (by decide) (by decide) (by decide)
  | none =>
    rcases t' with _ | _ | _ <;>
      exact ofInts_within (by decide) (by decide) (by decide) (by decide) (by decide)

end Span

namespace CompareOp

variable {l r l' r' : Span} {b : Bool}

theorem equal?_within (hl : l'.Within l) (hr : r'.Within r) (h : equal? l r = some b) :
    equal? l' r' = some b := by
  unfold equal? at h
  split at h
  · next hsame =>
    cases h
    simp only [Bool.and_eq_true] at hsame
    obtain ⟨⟨hll, hrr⟩, hlr⟩ := hsame
    obtain ⟨hll', hl'⟩ := hl.numEq_low hll
    obtain ⟨hrr', hr'⟩ := hr.numEq_low hrr
    have hlr' : l'.low.numEq r'.low :=
      Double.numEq_trans hl' (Double.numEq_trans hlr (Double.numEq_symm hr'))
    simp [equal?, hll', hrr', hlr']
  · split at h
    · next hapart =>
      cases h
      have hapart' : l'.high < r'.low ∨ r'.high < l'.low := by
        rcases (by simpa using hapart : l.high < r.low ∨ r.high < l.low) with h | h
        · exact .inl (hl.high_lt_low hr h)
        · exact .inr (hr.high_lt_low hl h)
      have hdiffer : ¬(l'.low.numEq l'.high && r'.low.numEq r'.high && l'.low.numEq r'.low) := by
        simp only [Bool.and_eq_true]
        rintro ⟨⟨hll, hrr⟩, hlr⟩
        rcases hapart' with h | h
        · exact Double.not_le_of_lt h
            (Double.le_of_numEq (Double.numEq_trans (Double.numEq_symm hlr) hll))
        · exact Double.not_le_of_lt h (Double.le_of_numEq (Double.numEq_trans hlr hrr))
      simp [equal?, hdiffer, hapart']
    · cases h

theorem less?_within (hl : l'.Within l) (hr : r'.Within r) (h : less? l r = some b) :
    less? l' r' = some b := by
  unfold less? at h
  split at h
  · next hlt =>
    cases h
    simp [less?, hl.high_lt_low hr hlt]
  · split at h
    · next hle =>
      cases h
      have hle' := hr.high_le_low hl hle
      have hnot : ¬l'.high < r'.low := fun hlt =>
        Double.not_lt_of_ordered hl.ordered hr.ordered hle' hlt
      simp [less?, hnot, hle']
    · cases h

theorem lessEq?_within (hl : l'.Within l) (hr : r'.Within r) (h : lessEq? l r = some b) :
    lessEq? l' r' = some b := by
  unfold lessEq? at h
  split at h
  · next hle =>
    cases h
    simp [lessEq?, hl.high_le_low hr hle]
  · split at h
    · next hlt =>
      cases h
      have hlt' := hr.high_lt_low hl hlt
      have hnot : ¬l'.high ≤ r'.low := fun hle =>
        Double.not_lt_of_ordered hr.ordered hl.ordered hle hlt'
      simp [lessEq?, hnot, hlt']
    · cases h

-- What holds for all pairs from two spans holds for all pairs from spans within them.
theorem decide?_within {op : CompareOp} (hl : l'.Within l) (hr : r'.Within r)
    (h : op.decide? l r = some b) : op.decide? l' r' = some b := by
  cases op with
  | equal => exact equal?_within hl hr h
  | notEqual =>
    obtain ⟨c, hc, rfl⟩ := Option.map_eq_some_iff.mp h
    simp [decide?, equal?_within hl hr hc]
  | less => exact less?_within hl hr h
  | lessEq => exact lessEq?_within hl hr h
  | greater => exact less?_within hr hl h
  | greaterEq => exact lessEq?_within hr hl h

end CompareOp

end AbsEval
