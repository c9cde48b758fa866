import AbsEval.Proofs.Arithmetic.Between
import AbsEval.Proofs.Arithmetic.Operands

namespace AbsEval

namespace CountOp

-- The amount as an operand of addition.
def step : CountOp → Int32
  | increment => 1
  | decrement => -1

theorem toInt_step (op : CountOp) : op.step.toInt = op.amount := by
  cases op <;> rfl

theorem apply_int (op : CountOp) (n : Int32) :
    op.apply (.int n) = ArithmeticOp.add.intResult n op.step := by
  rw [ArithmeticOp.intResult, ArithmeticOp.onInts?, ArithmeticOp.onFloats, toInt_step,
    Option.bind_some]
  rfl

theorem apply_intRange (op : CountOp) (range : Interval Int32) :
    op.apply (.intRange range) = op.shiftRange .intsBetween range := rfl

-- Counting a range is addition to it.
theorem shiftRange_eq (op : CountOp) (range : Interval Int32) :
    op.shiftRange .intsBetween range = ArithmeticOp.add.rangeResult
      (.ints range.start range.stop) (.ints op.step op.step) := by
  have hextremes := ArithmeticOp.intExtremes?_add (Int32.le_iff_toInt_le.mp range.ordered)
    (Int.le_refl op.step.toInt)
  rw [shiftRange_eq_between, ArithmeticOp.rangeResult_eq_between (.inl rfl) hextremes, toInt_step]

-- Integers are lost where some end of a range is counted out of the 32-bit integers.
def Loses (op : CountOp) (v : Value) : Prop :=
  v ≠ .any .integer ∧ ∃ a x, v.Describes a ∧ op.apply a = .float x

theorem bounds_apply_self {op : CountOp} {v c : Value} (hc : (op.apply c).isConcrete)
    (hv : ∀ a, v.Describes a → a = c) :
    (op.apply c).Bounds (op.apply c) ∧
      (¬(op.apply c).Describes (op.apply c) ↔ (∃ n, op.apply c = .int n) ∧ op.Loses v) := by
  have hself := Value.describes_self hc
  refine ⟨.inl hself, iff_of_false (not_not_intro hself) ?_⟩
  rintro ⟨⟨n, hn⟩, -, a, x, ha, hx⟩
  rw [hv a ha, hn] at hx
  cases hx

theorem isConcrete_apply_int (op : CountOp) (n : Int32) : (op.apply (.int n)).isConcrete := by
  rw [apply_int]
  exact ArithmeticOp.add.isConcrete_intResult n op.step

theorem bounds_apply_intRange (op : CountOp) {range : Interval Int32} {c : Value}
    (hc : (Value.intRange range).Describes c) :
    (op.apply (Value.intRange range).normalized).Bounds (op.apply c) ∧
      (¬(op.apply (Value.intRange range).normalized).Describes (op.apply c) ↔
        (∃ n, op.apply c = .int n) ∧ op.Loses (.intRange range)) := by
  obtain ⟨n, rfl, hn⟩ := hc
  by_cases hpoint : range.isPoint
  · have hstart : ∀ {m}, range.contains m → m = range.start := by
      intro m hm
      rw [Interval.isPoint, decide_eq_true_eq] at hpoint
      rw [Interval.contains_iff] at hm
      exact Int32.le_antisymm (Int32.le_trans hm.2 hpoint) hm.1
    obtain rfl := hstart hn
    simp only [Value.normalized, if_pos hpoint]
    refine bounds_apply_self (op.isConcrete_apply_int _) ?_
    rintro a ⟨m, rfl, hm⟩
    rw [hstart hm]
  · have hshift : op.apply (Value.intRange range).normalized =
        ArithmeticOp.add.rangeResult (.ints range.start range.stop) (.ints op.step op.step) := by
      rw [Value.normalized, if_neg hpoint, apply_intRange, shiftRange_eq]
    have hloses : op.Loses (.intRange range) ↔
        ArithmeticOp.add.Promotes range.start range.stop op.step op.step := by
      constructor
      · rintro ⟨-, a, x, ⟨m, rfl, hm⟩, hx⟩
        rw [apply_int] at hx
        exact ⟨m, op.step, x, Interval.contains_iff.mp hm, ⟨Int32.le_refl _, Int32.le_refl _⟩, hx⟩
      · rintro ⟨m, k, x, hm, hk, hx⟩
        rw [← Int32.le_antisymm hk.1 hk.2, ← apply_int] at hx
        exact ⟨Value.noConfusion, .int m, x, ⟨m, rfl, Interval.contains_iff.mpr hm⟩, hx⟩
    rw [hshift, apply_int, hloses]
    simpa using ArithmeticOp.add.bounds_rangeResult (Interval.contains_iff.mp hn)
      ⟨Int32.le_refl op.step, Int32.le_refl _⟩ ArithmeticOp.noConfusion

theorem bounds_apply (op : CountOp) {v c : Value} (hv : v.countsAsInt) (hc : v.Describes c) :
    (op.apply v.normalized).Bounds (op.apply c) ∧
      (¬(op.apply v.normalized).Describes (op.apply c) ↔
        (∃ n, op.apply c = .int n) ∧ op.Loses v) := by
  rcases Value.countsAsInt_cases hv with rfl | ⟨b, rfl⟩ | ⟨n, rfl⟩ | ⟨range, rfl⟩ | rfl | rfl
  · obtain rfl := hc
    exact bounds_apply_self (by cases op <;> rfl) fun _ h => h
  · obtain rfl := hc
    exact bounds_apply_self rfl fun _ h => h
  · obtain rfl := hc
    exact bounds_apply_self (op.isConcrete_apply_int _) fun _ h => h
  · exact op.bounds_apply_intRange hc
  · obtain ⟨b, rfl⟩ := Value.exists_bool_of_describes hc
    exact ⟨.inl hc, iff_of_false (not_not_intro hc) fun h => nomatch h.1⟩
  · obtain ⟨n, rfl⟩ := Value.exists_int_of_describes hc
    have hany : (Value.any .value).Describes (op.apply (.int n)) :=
      Value.describes_any (op.isConcrete_apply_int n) fun family _ => Family.mem_all family
    exact ⟨.inl hany, iff_of_false (not_not_intro hany) fun h => h.2.1 rfl⟩

end CountOp

end AbsEval
