import AbsEval.Operation.Counting
import AbsEval.Operation.Sign
import AbsEval.Proofs.Arithmetic.Range
import AbsEval.Proofs.Double.Integer
import AbsEval.Proofs.Index.Canonical

namespace AbsEval

namespace Value

section Width

variable {ω : Type} [LE ω] [Complement ω] [Word ω] {integers : ω → ω → Value} {low high : Int}
  {beyond : Value}

theorem wordsBetween_of_some {bottom top : ω} (hlow : word? low = some bottom)
    (hhigh : word? high = some top) :
    wordsBetween integers low high beyond = integers bottom top := by
  rw [wordsBetween, hlow, hhigh]

theorem wordsBetween_of_none (h : (word? low : Option ω) = none ∨ (word? high : Option ω) = none) :
    wordsBetween integers low high beyond = beyond := by
  unfold wordsBetween
  split
  · next hlow hhigh => simp [hlow, hhigh] at h
  · rfl

end Width

-- The integers between two ends of any size. If an end is beyond 32 bits, both become floats.
def between (low high : Int) : Value :=
  wordsBetween intsBetween low high (floatsBetween (.ofInt low) (.ofInt high))

variable {low high : Int}

theorem between_of_int32? {bottom top : Int32} (hlow : int32? low = some bottom)
    (hhigh : int32? high = some top) : between low high = intsBetween bottom top :=
  wordsBetween_of_some hlow hhigh

theorem between_toInt (bottom top : Int32) :
    between bottom.toInt top.toInt = intsBetween bottom top :=
  between_of_int32? (int32?_toInt bottom) (int32?_toInt top)

theorem between_of_none (h : int32? low = none ∨ int32? high = none) :
    between low high = floatsBetween (.ofInt low) (.ofInt high) :=
  wordsBetween_of_none h

theorem floatsBetween_self {x : Double} (h : x ≤ x) : floatsBetween x x = float x := by
  have hpoint : Interval.isPoint ⟨x, x, h⟩ := decide_eq_true h
  rw [floatsBetween, numbersBetween_of_le h, normalized, if_pos hpoint]

theorem ofInteger_eq (n : Int) : ofInteger n = (int32? n).elim (float (.ofInt n)) int := rfl

theorem between_self {n : Int} (h : n.natAbs < 2 ^ 53) : between n n = ofInteger n := by
  cases hn : int32? n with
  | some m => rw [between_of_int32? hn hn, intsBetween_self, ofInteger_eq, hn,
      Option.elim_some]
  | none =>
    rw [between_of_none (.inl hn), floatsBetween_self ((Double.ofInt_le_ofInt h h).mpr le_rfl),
      ofInteger_eq, hn, Option.elim_none]

end Value

theorem CountOp.shiftRange_eq_between (op : CountOp) (range : Interval Int32) :
    op.shiftRange .intsBetween range =
      .between (range.start.toInt + op.amount) (range.stop.toInt + op.amount) := by
  have hamount : op.amount.natAbs < 2 ^ 53 := by cases op <;> decide
  have hstart := Double.ofInt_add_ofInt (Double.natAbs_toInt_lt range.start) hamount
  have hstop := Double.ofInt_add_ofInt (Double.natAbs_toInt_lt range.stop) hamount
  rw [Value.between, ← hstart, ← hstop]
  rfl

namespace ArithmeticOp

variable {op : ArithmeticOp} {a b c d : Int32}

theorem ne_div_of_add_or_sub (hop : op = add ∨ op = sub) : op ≠ div := by
  rcases hop with rfl | rfl <;> decide

-- Sums and differences of 32-bit integers are exact as floats.
theorem onFloats_ofInt {k : Int} (hop : op = add ∨ op = sub)
    (h : op.onInts? a.toInt b.toInt = some k) :
    op.onFloats (.ofInt a.toInt) (.ofInt b.toInt) = .ofInt k ∧ k.natAbs < 2 ^ 53 := by
  have ha := Double.natAbs_toInt_le a
  have hb := Double.natAbs_toInt_le b
  rcases hop with rfl | rfl
  · obtain rfl := Option.some.inj h
    exact ⟨Double.ofInt_add_ofInt (by omega) (by omega), by omega⟩
  · obtain rfl := Option.some.inj h
    exact ⟨Double.ofInt_sub_ofInt (by omega) (by omega), by omega⟩

theorem intResult_eq_between {k : Int} (hop : op = add ∨ op = sub)
    (h : op.onInts? a.toInt b.toInt = some k) : op.intResult a b = .between k k := by
  obtain ⟨hfloat, hk⟩ := onFloats_ofInt hop h
  rw [intResult, h, Option.bind_some, hfloat, Value.between_self hk, Value.ofInteger_eq]

theorem floatCorners_of_corners {l r : OperandRange} {corners : List Double}
    (h : [op.onFloats l.low r.low, op.onFloats l.low r.high, op.onFloats l.high r.low,
      op.onFloats l.high r.high] = corners) (hnan : ∀ x ∈ corners, x.isNaN = false) :
    op.floatCorners l r = .floatsBetween (corners.foldl Double.lesser (.infinite false))
      (corners.foldl Double.greater (.infinite true)) := by
  subst h
  unfold floatCorners
  refine if_neg fun hany => ?_
  obtain ⟨x, hx, hx'⟩ := List.any_eq_true.mp hany
  rw [hnan x hx] at hx'
  cases hx'

-- The corners of the floats are those of the integers.
theorem floatCorners_ints {least greatest : Int} (hop : op = add ∨ op = sub)
    (h : op.intExtremes? a.toInt b.toInt c.toInt d.toInt = some (least, greatest)) :
    op.floatCorners (.ints a b) (.ints c d) = .floatsBetween (.ofInt least) (.ofInt greatest) := by
  have hdiv := ne_div_of_add_or_sub hop
  obtain ⟨ac, hac⟩ := exists_onInts? hdiv a.toInt c.toInt
  obtain ⟨ad, had⟩ := exists_onInts? hdiv a.toInt d.toInt
  obtain ⟨bc, hbc⟩ := exists_onInts? hdiv b.toInt c.toInt
  obtain ⟨bd, hbd⟩ := exists_onInts? hdiv b.toInt d.toInt
  simp only [intExtremes?, if_neg hdiv, hac, had, hbc, hbd, Option.bind_eq_bind, Option.bind_some,
    Option.some.injEq, Prod.mk.injEq] at h
  obtain ⟨rfl, rfl⟩ := h
  obtain ⟨hac, hac'⟩ := onFloats_ofInt hop hac
  obtain ⟨had, had'⟩ := onFloats_ofInt hop had
  obtain ⟨hbc, hbc'⟩ := onFloats_ofInt hop hbc
  obtain ⟨hbd, hbd'⟩ := onFloats_ofInt hop hbd
  have hnan : ∀ x ∈ [Double.ofInt ac, .ofInt ad, .ofInt bc, .ofInt bd], x.isNaN = false := by
    simp only [List.forall_mem_cons, List.not_mem_nil, false_imp_iff, implies_true, and_true]
    exact ⟨Double.isNaN_ofInt hac', Double.isNaN_ofInt had', Double.isNaN_ofInt hbc',
      Double.isNaN_ofInt hbd'⟩
  rw [floatCorners_of_corners (by rw [← hac, ← had, ← hbc, ← hbd]; rfl) hnan,
    Double.foldl_lesser_ofInt hac' had' hbc' hbd',
    Double.foldl_greater_ofInt hac' had' hbc' hbd']

theorem rangeResult_eq_between {least greatest : Int} (hop : op = add ∨ op = sub)
    (h : op.intExtremes? a.toInt b.toInt c.toInt d.toInt = some (least, greatest)) :
    op.rangeResult (.ints a b) (.ints c d) = .between least greatest := by
  rw [rangeResult, intCorners?, h, floatCorners_ints hop h]
  simp only [Option.bind_eq_bind, Option.bind_some]
  cases hlow : int32? least with
  | none => rw [Option.bind_none, Option.getD_none, Value.between_of_none (.inl hlow)]
  | some bottom =>
    cases hhigh : int32? greatest with
    | none =>
      rw [Option.bind_some, Option.bind_none, Option.getD_none, Value.between_of_none (.inr hhigh)]
    | some top =>
      rw [Option.bind_some, Option.bind_some, Option.getD_some, Value.between_of_int32? hlow hhigh]

-- Which ends the extremes are at.

theorem intExtremes?_self {a c k : Int} (hop : op ≠ div) (h : op.onInts? a c = some k) :
    op.intExtremes? a a c c = some (k, k) := by
  simp only [intExtremes?, if_neg hop, h, Option.bind_eq_bind, Option.bind_some, min_self, max_self]

theorem intExtremes?_add {a b c d : Int} (hab : a ≤ b) (hcd : c ≤ d) :
    add.intExtremes? a b c d = some (a + c, b + d) := by
  have hleast : min (min (a + c) (a + d)) (min (b + c) (b + d)) = a + c := by omega
  have hgreatest : max (max (a + c) (a + d)) (max (b + c) (b + d)) = b + d := by omega
  simp only [intExtremes?, onInts?, reduceCtorEq, ↓reduceIte, Option.bind_eq_bind,
    Option.bind_some, hleast, hgreatest]

theorem intExtremes?_sub {a b c d : Int} (hab : a ≤ b) (hcd : c ≤ d) :
    sub.intExtremes? a b c d = some (a - d, b - c) := by
  have hleast : min (min (a - c) (a - d)) (min (b - c) (b - d)) = a - d := by omega
  have hgreatest : max (max (a - c) (a - d)) (max (b - c) (b - d)) = b - c := by omega
  simp only [intExtremes?, onInts?, reduceCtorEq, ↓reduceIte, Option.bind_eq_bind,
    Option.bind_some, hleast, hgreatest]

end ArithmeticOp

end AbsEval
