import AbsEval.Proofs.Arithmetic.Counting
import AbsEval.Proofs.Evaluation

namespace AbsEval

namespace ArithmeticOp

variable {op : ArithmeticOp} {a b low high low' high' : Int32}

-- Division by what may be zero, numbers, and ranges.
theorem result_onOperands (op : ArithmeticOp) (low high low' high' : Int32) :
    (op.onOperands (.ofBounds low high) (.ofBounds low' high')).result =
      if op = div ∧ low' ≤ 0 ∧ 0 ≤ high' then
        if low' = high' then .bool false else .any .value
      else if low = high ∧ low' = high' then op.intResult low low'
      else op.rangeResult (.ints low high) (.ints low' high') := by
  have hzero : (Operand.ofBounds low' high').mayBeZero ↔ low' ≤ 0 ∧ 0 ≤ high' := by
    unfold Operand.ofBounds
    split
    · next h =>
      subst h
      simp only [Operand.mayBeZero, decide_eq_true_eq]
      constructor
      · rintro rfl
        exact ⟨Int32.le_refl _, Int32.le_refl _⟩
      · rintro ⟨hle, hge⟩
        exact Int32.le_antisymm hle hge
    · simp [Operand.mayBeZero]
  by_cases hdiv : op = div ∧ low' ≤ 0 ∧ 0 ≤ high'
  · have hmay : (decide (op = div) && (Operand.ofBounds low' high').mayBeZero) = true := by
      simp [hdiv.1, hzero.mpr hdiv.2]
    unfold onOperands
    rw [if_pos hdiv, if_pos hmay]
    unfold Operand.ofBounds
    split <;> rfl
  · have hmay : ¬(decide (op = div) && (Operand.ofBounds low' high').mayBeZero) = true := by
      simpa [hzero] using hdiv
    unfold onOperands
    rw [if_neg hdiv, if_neg hmay]
    unfold Operand.ofBounds
    by_cases hl : low = high <;> by_cases hr : low' = high' <;>
      simp [hl, hr, Operand.range?, Noted.quiet]

theorem result_onOperands_int (op : ArithmeticOp) (a b : Int32) :
    (op.onOperands (.int a) (.int b)).result =
      if op = div ∧ b = 0 then .bool false else op.intResult a b := by
  have hzero : b ≤ 0 ∧ 0 ≤ b ↔ b = 0 :=
    ⟨fun h => Int32.le_antisymm h.1 h.2, fun h => h ▸ ⟨Int32.le_refl _, Int32.le_refl _⟩⟩
  simpa [Operand.ofBounds, hzero] using op.result_onOperands a a b b

-- Integer results are lost among the quotients of ranges, and beside a result that is a float.
def Loses (op : ArithmeticOp) (low high low' high' : Int32) : Prop :=
  if op = div then ¬(low = high ∧ low' = high') ∧ ¬(low' ≤ 0 ∧ 0 ≤ high')
  else op.Promotes low high low' high'

theorem bounds_onOperands (op : ArithmeticOp) (ha : low ≤ a ∧ a ≤ high)
    (hb : low' ≤ b ∧ b ≤ high') :
    (op.onOperands (.ofBounds low high) (.ofBounds low' high')).result.Bounds
        (op.onOperands (.int a) (.int b)).result ∧
      (¬(op.onOperands (.ofBounds low high) (.ofBounds low' high')).result.Describes
          (op.onOperands (.int a) (.int b)).result ↔
        (∃ n, (op.onOperands (.int a) (.int b)).result = .int n) ∧
          op.Loses low high low' high') := by
  rw [result_onOperands, result_onOperands_int]
  by_cases hzero : op = div ∧ low' ≤ 0 ∧ 0 ≤ high'
  · rw [if_pos hzero]
    have hconcrete : (if op = div ∧ b = 0 then .bool false else op.intResult a b).isConcrete := by
      split
      · rfl
      · exact op.isConcrete_intResult a b
    by_cases hpoint : low' = high'
    · obtain rfl : b = 0 := by
        subst hpoint
        rw [Int32.le_antisymm hb.2 hb.1, Int32.le_antisymm hzero.2.1 hzero.2.2]
      rw [if_pos hpoint, if_pos ⟨hzero.1, rfl⟩]
      exact ⟨.inl rfl, by simp [Value.Describes]⟩
    · rw [if_neg hpoint]
      have hany : (Value.any .value).Describes _ :=
        Value.describes_any hconcrete fun family _ => Family.mem_all family
      have hloses : ¬op.Loses low high low' high' := by simp [Loses, hzero]
      exact ⟨.inl hany, iff_of_false (not_not_intro hany) fun h => hloses h.2⟩
  · have hdiv : op = div → 0 < low' ∨ high' < 0 := by
      intro hop
      rw [← Int32.not_le, ← Int32.not_le, ← not_and_or]
      exact fun h => hzero ⟨hop, h⟩
    have hb0 : ¬(op = div ∧ b = 0) := fun h => ne_zero_of_sides hdiv hb h.1 h.2
    rw [if_neg hzero, if_neg hb0]
    by_cases hpoint : low = high ∧ low' = high'
    · obtain ⟨rfl, rfl⟩ := hpoint
      obtain rfl := Int32.le_antisymm ha.1 ha.2
      obtain rfl := Int32.le_antisymm hb.1 hb.2
      have hself := Value.describes_self (op.isConcrete_intResult low low')
      rw [if_pos ⟨rfl, rfl⟩]
      refine ⟨.inl hself, iff_of_false (not_not_intro hself) ?_⟩
      rintro ⟨⟨n, hn⟩, hloses⟩
      unfold Loses at hloses
      split at hloses
      · exact hloses.1 ⟨rfl, rfl⟩
      · obtain ⟨x, y, z, hx, hy, hz⟩ := hloses
        rw [← Int32.le_antisymm hx.1 hx.2, ← Int32.le_antisymm hy.1 hy.2, hn] at hz
        cases hz
    · rw [if_neg hpoint]
      have hloses : op.Loses low high low' high' ↔ op = div ∨ op.Promotes low high low' high' := by
        unfold Loses
        split
        · next hop => simpa [hop, hpoint] using hzero
        · next hop => simp [hop]
      rw [hloses]
      exact op.bounds_rangeResult ha hb hdiv

end ArithmeticOp

namespace Value

variable {v c : Value} {low high : Int32}

-- The operands that are taken for numbers, known or not.
def countsAsNumber (v : Value) : Bool :=
  v.isOperand && !v.isArrayLike && !v.isObjectLike

theorem countsAsNumber_normalized (h : v.countsAsNumber) : v.normalized.countsAsNumber := by
  cases v <;> try exact h
  case intRange range | floatRange range =>
    simp only [normalized]
    split <;> rfl
  case longRange range => cases h

theorem countsAsNumber_of_countsAsInt (h : v.countsAsInt) : v.countsAsNumber := by
  rcases countsAsInt_cases h with rfl | ⟨b, rfl⟩ | ⟨n, rfl⟩ | ⟨range, rfl⟩ | rfl | rfl <;> rfl

theorem countsAsInt_of_describes (h : v.countsAsInt) (hc : v.Describes c) : c.countsAsInt := by
  rcases countsAsInt_cases h with rfl | ⟨b, rfl⟩ | ⟨n, rfl⟩ | ⟨range, rfl⟩ | rfl | rfl
  · exact hc ▸ rfl
  · exact hc ▸ rfl
  · exact hc ▸ rfl
  · obtain ⟨n, rfl, -⟩ := hc
    rfl
  · obtain ⟨b, rfl⟩ := exists_bool_of_describes hc
    rfl
  · obtain ⟨n, rfl⟩ := exists_int_of_describes hc
    rfl

-- A member is true if it counts as a number other than zero.
theorem truth?_of_countsAsInt {store : Store} {n : Int32} (h : c.countsAsInt) (hc : c.isConcrete)
    (hn : Operand.ofValue c = .int n) : c.truth? store = some (decide (n ≠ 0)) := by
  rcases countsAsInt_cases h with rfl | ⟨b, rfl⟩ | ⟨m, rfl⟩ | ⟨range, rfl⟩ | rfl | rfl
  · obtain rfl := Operand.int.inj hn
    rfl
  · obtain rfl := Operand.int.inj hn
    cases b <;> rfl
  · obtain rfl := Operand.int.inj hn
    rfl
  all_goals cases hc

theorem isSingle_iff (h : v.CountsBetween low high) : v.IsSingle ↔ low = high := by
  constructor
  · intro hsingle
    obtain ⟨a, ha, hlow⟩ := h.reached (Int32.le_refl low) h.ordered
    obtain ⟨b, hb, hhigh⟩ := h.reached h.ordered (Int32.le_refl high)
    rw [hsingle a b ha hb, hhigh] at hlow
    exact (Operand.int.inj hlow).symm
  · rintro rfl a b ha hb
    obtain ⟨m, hm, hlm, hml⟩ := h.bounded ha
    obtain ⟨n, hn, hln, hnl⟩ := h.bounded hb
    refine h.distinct ha hb ?_
    rw [hm, hn, Int32.le_antisymm hml hlm, Int32.le_antisymm hnl hln]

theorem forall_truth?_iff {store : Store} (hv : v.countsAsInt) (h : v.CountsBetween low high) :
    (∀ c, v.Describes c → c.truth? store = some true) ↔ ¬(low ≤ 0 ∧ 0 ≤ high) := by
  have htruth : ∀ {c n}, v.Describes c → Operand.ofValue c = .int n →
      (c.truth? store = some true ↔ n ≠ 0) := by
    intro c n hc hn
    rw [truth?_of_countsAsInt (countsAsInt_of_describes hv hc) (isConcrete_of_describes hc) hn]
    simp
  constructor
  · rintro htrue ⟨hlow, hhigh⟩
    obtain ⟨c, hc, hzero⟩ := h.reached hlow hhigh
    exact (htruth hc hzero).mp (htrue c hc) rfl
  · intro hzero c hc
    obtain ⟨n, hn, hlow, hhigh⟩ := h.bounded hc
    exact (htruth hc hn).mpr fun h0 => hzero (h0 ▸ ⟨hlow, hhigh⟩)

end Value

namespace Eval

variable (options : Options) (state : State) {op : ArithmeticOp} {l r : Value}

theorem run_arithmetic_noted (op : ArithmeticOp) (hl : l.countsAsNumber) (hr : r.countsAsNumber) :
    (binary l (.arithmetic op) r).run options state =
      (note (op.onOperands (.ofValue l.normalized) (.ofValue r.normalized))).run options state := by
  have hl' := Value.countsAsNumber_normalized hl
  have hr' := Value.countsAsNumber_normalized hr
  change (guarded l.normalized r.normalized (arithmetic op _ _)).run options state = _
  generalize l.normalized = left at hl'
  generalize r.normalized = right at hr'
  simp only [Value.countsAsNumber, Bool.and_eq_true, Bool.not_eq_true'] at hl' hr'
  rw [run_guarded options state _ hl'.1.1 hr'.1.1]
  unfold arithmetic
  split
  · cases hl'.1.2
  · simp only [ArithmeticOp.apply, hl'.1.2, hl'.2, hr'.1.2, hr'.2, Bool.or_self,
      Bool.false_eq_true, ↓reduceIte]

theorem run_arithmetic (op : ArithmeticOp) (hl : l.countsAsInt) (hr : r.countsAsInt) :
    ((binary l (.arithmetic op) r).run options state).1 =
      .ok (op.onOperands (.ofValue l.normalized) (.ofValue r.normalized)).result := by
  rw [run_arithmetic_noted options state op (Value.countsAsNumber_of_countsAsInt hl)
    (Value.countsAsNumber_of_countsAsInt hr), run_note]

-- The operands whose integer results are lost. Ranges lose their integer quotients whether or not
-- some quotient is a float.
def LosesInts (op : ArithmeticOp) (l r : Value) : Prop :=
  if op = .div then
    ¬(l.IsSingle ∧ r.IsSingle) ∧ ∀ d, r.Describes d → d.truth? state.store = some true
  else
    ∃ a b x, l.Describes a ∧ r.Describes b ∧
      ((binary a (.arithmetic op) b).run options state).1 = .ok (.float x)

theorem run_arithmetic_members {a b : Value} {m n : Int32} (hl : l.countsAsInt) (hr : r.countsAsInt)
    (ha : l.Describes a) (hb : r.Describes b) (hm : Operand.ofValue a = .int m)
    (hn : Operand.ofValue b = .int n) :
    ((binary a (.arithmetic op) b).run options state).1 =
      .ok (op.onOperands (.int m) (.int n)).result := by
  rw [run_arithmetic options state op (Value.countsAsInt_of_describes hl ha)
      (Value.countsAsInt_of_describes hr hb),
    Value.normalized_of_isConcrete (Value.isConcrete_of_describes ha),
    Value.normalized_of_isConcrete (Value.isConcrete_of_describes hb), hm, hn]

theorem losesInts_iff {low high low' high' : Int32} (hl : l.countsAsInt) (hr : r.countsAsInt)
    (hlb : l.CountsBetween low high) (hrb : r.CountsBetween low' high') :
    LosesInts options state op l r ↔ op.Loses low high low' high' := by
  unfold LosesInts ArithmeticOp.Loses
  split
  · rw [Value.isSingle_iff hlb, Value.isSingle_iff hrb, Value.forall_truth?_iff hr hrb]
  · next hop =>
    constructor
    · rintro ⟨a, b, x, ha, hb, hx⟩
      obtain ⟨m, hm, hmb⟩ := hlb.bounded ha
      obtain ⟨n, hn, hnb⟩ := hrb.bounded hb
      rw [run_arithmetic_members options state hl hr ha hb hm hn, Except.ok.injEq,
        ArithmeticOp.result_onOperands_int, if_neg fun h => hop h.1] at hx
      exact ⟨m, n, x, hmb, hnb, hx⟩
    · rintro ⟨m, n, x, hmb, hnb, hx⟩
      obtain ⟨a, ha, hm⟩ := hlb.reached hmb.1 hmb.2
      obtain ⟨b, hb, hn⟩ := hrb.reached hnb.1 hnb.2
      refine ⟨a, b, x, ha, hb, ?_⟩
      rw [run_arithmetic_members options state hl hr ha hb hm hn, Except.ok.injEq,
        ArithmeticOp.result_onOperands_int, if_neg fun h => hop h.1, hx]

theorem run_count_data (op : CountOp) {v : Value} (h : v.isMarker = false) :
    (count op v).run options state = (.ok (op.apply v.normalized), state) := by
  unfold count
  rw [run_bind_ok options state (run_expectData options state (by simpa using h))]
  rfl

theorem run_count (op : CountOp) {v : Value} (h : v.countsAsInt) :
    ((count op v).run options state).1 = .ok (op.apply v.normalized) := by
  have hdata : v.isMarker = false := by
    rcases Value.countsAsInt_cases h with rfl | ⟨b, rfl⟩ | ⟨n, rfl⟩ | ⟨range, rfl⟩ | rfl | rfl
    all_goals rfl
  rw [run_count_data options state op hdata]

-- On integers every result is bounded by the result of what stands for the operands. Among floats
-- only integers are lost, and just where one result is a float or ranges are divided. The floats
-- then have the equal one.
theorem integer_results_bounded (options : Options) (state : State) :
    (∀ (op : ArithmeticOp) (l r l' r' : Value), l.countsAsInt → r.countsAsInt → l.Describes l' →
      r.Describes r' → ∃ v c, ((binary l (.arithmetic op) r).run options state).1 = .ok v ∧
        ((binary l' (.arithmetic op) r').run options state).1 = .ok c ∧ v.Bounds c ∧
        (¬v.Describes c ↔ (∃ n, c = .int n) ∧ LosesInts options state op l r)) ∧
    (∀ (op : CountOp) (l l' : Value), l.countsAsInt → l.Describes l' →
      ∃ v c, ((count op l).run options state).1 = .ok v ∧
        ((count op l').run options state).1 = .ok c ∧ v.Bounds c ∧
        (¬v.Describes c ↔ (∃ n, c = .int n) ∧ l ≠ .any .integer ∧ ∃ a x, l.Describes a ∧
          ((count op a).run options state).1 = .ok (.float x))) := by
  constructor
  · intro op l r l' r' hl hr hl' hr'
    obtain ⟨low, high, hlb⟩ := Value.exists_countsBetween hl
    obtain ⟨low', high', hrb⟩ := Value.exists_countsBetween hr
    obtain ⟨m, hm, hmb⟩ := hlb.bounded hl'
    obtain ⟨n, hn, hnb⟩ := hrb.bounded hr'
    have hrun := run_arithmetic options state op hl hr
    rw [hlb.operand, hrb.operand] at hrun
    refine ⟨_, _, hrun, run_arithmetic_members options state hl hr hl' hr' hm hn, ?_⟩
    rw [losesInts_iff options state hl hr hlb hrb]
    exact op.bounds_onOperands hmb hnb
  · intro op l l' hl hl'
    have hmember : ∀ {a}, l.Describes a →
        ((count op a).run options state).1 = .ok (op.apply a) := by
      intro a ha
      rw [run_count options state op (Value.countsAsInt_of_describes hl ha),
        Value.normalized_of_isConcrete (Value.isConcrete_of_describes ha)]
    refine ⟨_, _, run_count options state op hl, hmember hl', ?_⟩
    have hloses : (l ≠ .any .integer ∧ ∃ a x, l.Describes a ∧
        ((count op a).run options state).1 = .ok (.float x)) ↔ op.Loses l := by
      refine and_congr_right fun _ => exists_congr fun a => exists_congr fun x => ?_
      exact and_congr_right fun ha => by rw [hmember ha, Except.ok.injEq]
    rw [hloses]
    exact op.bounds_apply hl hl'

def fromZero : Interval Int32 := ⟨0, Int32.maxValue, by decide⟩

-- A quotient of ranges and the step beyond the largest integer: the integer of one member is lost,
-- and the equal float is among the floats that stand for the result.
theorem integer_results_bounded_fromZero :
    (Value.intRange fromZero).countsAsInt ∧ (Value.int 2).countsAsInt ∧
      (Value.intRange fromZero).Describes (.int 6) ∧ (Value.int 2).Describes (.int 2) ∧
      (∃ v, ((binary (.intRange fromZero) (.arithmetic .div) (.int 2)).run {} .initial).1 = .ok v ∧
        ((binary (.int 6) (.arithmetic .div) (.int 2)).run {} .initial).1 = .ok (.int 3) ∧
        ¬v.Describes (.int 3) ∧ v.HasFloat (.ofInt 3)) ∧
      ∃ v, ((count .increment (.intRange fromZero)).run {} .initial).1 = .ok v ∧
        ((count .increment (.int 6)).run {} .initial).1 = .ok (.int 7) ∧
        ¬v.Describes (.int 7) ∧ v.HasFloat (.ofInt 7) := by
  have hrange : ∀ n : Int32, 0 ≤ n → (Value.intRange fromZero).Describes (.int n) := fun n hn =>
    ⟨n, rfl, Interval.contains_iff.mpr ⟨hn, Int32.le_maxValue n⟩⟩
  have hsix := hrange 6 (by decide)
  have htwo : (Value.int 2).Describes (.int 2) := rfl
  have hquotient : ((binary (.int 6) (.arithmetic .div) (.int 2)).run {} .initial).1 =
      .ok (.int 3) := by
    decide +kernel
  have hnext : ((count .increment (.int 6)).run {} .initial).1 = .ok (.int 7) := by decide +kernel
  obtain ⟨x, hbeyond⟩ : ∃ x, ((count .increment (.int Int32.maxValue)).run {} .initial).1 =
      .ok (.float x) := ⟨_, rfl⟩
  have hmany : LosesInts {} .initial .div (.intRange fromZero) (.int 2) := by
    refine ⟨fun hsingle => ?_, fun d hd => ?_⟩
    · have heq := hsingle.1 _ _ (hrange 0 (by decide)) (hrange 1 (by decide))
      cases heq
    · rw [hd]
      rfl
  obtain ⟨harithmetic, hcount⟩ := integer_results_bounded {} .initial
  obtain ⟨v, c, hv, hc, hbounds, hlost⟩ := harithmetic .div _ _ _ _ rfl rfl hsix htwo
  obtain ⟨w, d, hw, hd, hbounds', hlost'⟩ := hcount .increment _ _ rfl hsix
  obtain rfl := Except.ok.inj (hc.symm.trans hquotient)
  obtain rfl := Except.ok.inj (hd.symm.trans hnext)
  have hmissed := hlost.mpr ⟨⟨3, rfl⟩, hmany⟩
  have hmissed' := hlost'.mpr
    ⟨⟨7, rfl⟩, Value.noConfusion, _, x, hrange Int32.maxValue (by decide), hbeyond⟩
  obtain ⟨m, hm, hfloat⟩ := hbounds.resolve_left hmissed
  obtain ⟨n, hn, hfloat'⟩ := hbounds'.resolve_left hmissed'
  cases hm
  cases hn
  exact ⟨rfl, rfl, hsix, htwo, ⟨v, hv, hquotient, hmissed, hfloat⟩,
    w, hw, hnext, hmissed', hfloat'⟩

-- The sum of zero and one is an integer, but zero to the largest integer and one make floats only,
-- and these are found to be different from it.
theorem sum_of_range_misses_one :
    (Value.intRange fromZero).Describes (.int 0) ∧
      ((binary (.int 0) (.arithmetic .add) (.int 1)).run {} .initial).1 = .ok (.int 1) ∧
      ∃ v, ((binary (.intRange fromZero) (.arithmetic .add) (.int 1)).run {} .initial).1 = .ok v ∧
        ¬v.Describes (.int 1) ∧
        ((binary v (.identity .identical) (.int 1)).run {} .initial).1 = .ok (.bool false) := by
  have hsum : ((binary (.intRange fromZero) (.arithmetic .add) (.int 1)).run {} .initial).1 =
      .ok (.floatRange ⟨.ofInt 1, .ofInt 2147483648, by decide +kernel⟩) := by
    decide +kernel
  exact ⟨⟨0, rfl, by decide⟩, by decide +kernel, _, hsum, Value.not_describes_int rfl 1,
    by decide +kernel⟩

end Eval

end AbsEval
