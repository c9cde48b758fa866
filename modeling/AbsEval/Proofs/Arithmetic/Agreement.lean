import AbsEval.Proofs.Arithmetic.Bounds

namespace AbsEval

def Interval.single (n : Int32) : Interval Int32 :=
  ⟨n, n, Int32.le_refl n⟩

namespace Value

-- The operands that count as known integers, and the range of these. A text counts as the integer
-- it begins with, and as zero if it begins with no number.
inductive CountsAs : Value → Interval Int32 → Prop where
  | null : CountsAs null (.single 0)
  | bool (b : Bool) : CountsAs (bool b) (.single b.toInt32)
  | int (n : Int32) : CountsAs (int n) (.single n)
  | intRange (range : Interval Int32) : CountsAs (intRange range) range
  | boolean : CountsAs (any .boolean) ⟨0, 1, by decide⟩
  | resource {id : UInt32} {n : Int32} (h : int32? id.toNat = some n) :
    CountsAs (resource id) (.single n)
  | text {text : String} (h : Numeral.ofText true text = .none) : CountsAs (str text) (.single 0)
  | numeral {text : String} {n : Int32} {hex : Bool} (h : Numeral.ofText true text = .int n hex) :
    CountsAs (str text) (.single n)

variable {v : Value} {range : Interval Int32}

theorem countsAsNumber_of_countsAs (h : v.CountsAs range) : v.countsAsNumber := by
  cases h <;> rfl

theorem ofValue_of_countsAs (h : v.CountsAs range) :
    Operand.ofValue v.normalized = .ofBounds range.start range.stop := by
  cases h with
  | null | bool b | int n => exact (Operand.ofBounds_self _).symm
  | intRange => exact (countsBetween_intRange range).operand
  | boolean => rfl
  | @resource id n h =>
    show (int32? id.toNat).elim Operand.unknown Operand.int = _
    rw [h]
    exact (Operand.ofBounds_self n).symm
  | @text text h | @numeral text n hex h =>
    show (if (Numeral.ofText true text).isInteger then
      Operand.int (Numeral.ofText true text).toInt32 else _) = _
    rw [h]
    exact (Operand.ofBounds_self _).symm

-- The signs of what is found to be one integer.
theorem signs_of_single {n : Int32} (hplus : v.plus = .quiet (int n))
    (hminus : v.minus = .quiet (ofInteger (-n.toInt))) :
    v.plus = .quiet (between n.toInt n.toInt) ∧
      v.minus = .quiet (between (-n.toInt) (-n.toInt)) := by
  have hn := Double.natAbs_toInt_le n
  rw [hplus, hminus, between_toInt, intsBetween_self, between_self (by omega)]
  exact ⟨rfl, rfl⟩

theorem signs_of_toValue {text : String} {n : Int32} (h : Numeral.toValue text = int n) :
    (str text).plus = .quiet (between n.toInt n.toInt) ∧
      (str text).minus = .quiet (between (-n.toInt) (-n.toInt)) :=
  signs_of_single (by rw [plus, h]) (by rw [minus, h, negatedNumber])

theorem signs_of_countsAs (h : v.CountsAs range) :
    v.normalized.plus = .quiet (between range.start.toInt range.stop.toInt) ∧
      v.normalized.minus = .quiet (between (-range.stop.toInt) (-range.start.toInt)) := by
  cases h with
  | null | bool b | int n => exact signs_of_single rfl rfl
  | intRange =>
    rcases normalized_intRange range with ⟨hrange, hpoint⟩ | ⟨hrange, -⟩
    · rw [hrange, ← hpoint]
      exact signs_of_single rfl rfl
    · rw [hrange, between_toInt, intsBetween_of_le range.ordered, hrange]
      exact ⟨rfl, rfl⟩
  | boolean =>
    show Noted.quiet (intsBetween 0 1) = .quiet (between 0 1) ∧
      Noted.quiet (intsBetween (-1) 0) = .quiet (between (-1) 0)
    rw [← between_toInt, ← between_toInt]
    exact ⟨rfl, rfl⟩
  | @resource id n h =>
    have hplus : (resource id).plus = .quiet (int n) := by
      rw [plus, h, Option.elim_some]
    have hminus : (resource id).minus = .quiet (ofInteger (-n.toInt)) := by
      rw [minus, h, Option.elim_some]
    exact signs_of_single hplus hminus
  | @text text h =>
    have hvalue : Numeral.toValue text = int 0 := by
      rw [Numeral.toValue, h]
      rfl
    exact signs_of_toValue hvalue
  | @numeral text n hex h =>
    have hvalue : Numeral.toValue text = int n := by
      rw [Numeral.toValue, h]
      rfl
    exact signs_of_toValue hvalue

-- Between the least and the greatest of numbers are integers if all have 32 bits, and else floats.
theorem families_between {f : Int → Int} {a b : Int32} (ha : range.contains a)
    (hb : range.contains b)
    (hf : ∀ n, range.contains n → f a.toInt ≤ f n.toInt ∧ f n.toInt ≤ f b.toInt) :
    ((∀ n, range.contains n → -2 ^ 31 ≤ f n.toInt ∧ f n.toInt < 2 ^ 31) →
      (between (f a.toInt) (f b.toInt)).families = [.integer]) ∧
    ((∃ n, range.contains n ∧ ¬(-2 ^ 31 ≤ f n.toInt ∧ f n.toInt < 2 ^ 31)) →
      (between (f a.toInt) (f b.toInt)).families = [.float]) := by
  constructor
  · intro hfits
    obtain ⟨bottom, hbottom⟩ := exists_int32? (hfits a ha).1 (hfits a ha).2
    obtain ⟨top, htop⟩ := exists_int32? (hfits b hb).1 (hfits b hb).2
    rw [between_of_int32? hbottom htop, families_intsBetween]
  · rintro ⟨n, hn, hbeyond⟩
    have hle := hf n hn
    rw [between_of_none, families_floatsBetween]
    rw [int32?_eq_none_iff, int32?_eq_none_iff]
    omega

end Value

namespace ArithmeticOp

variable {op : ArithmeticOp}

theorem warnings_onOperands (hop : op ≠ div) (l r : Operand) :
    (op.onOperands l r).warnings = [] := by
  unfold onOperands
  rw [if_neg (by simp [hop])]
  split <;> try rfl
  split <;> rfl

theorem result_onOperands_eq_between {a b c d : Int32} {least greatest : Int}
    (hop : op = add ∨ op = sub)
    (h : op.intExtremes? a.toInt b.toInt c.toInt d.toInt = some (least, greatest)) :
    (op.onOperands (.ofBounds a b) (.ofBounds c d)).result = .between least greatest := by
  have hdiv := ne_div_of_add_or_sub hop
  rw [result_onOperands, if_neg fun hzero => hdiv hzero.1]
  split
  · next hpoint =>
    obtain ⟨k, hk⟩ := exists_onInts? hdiv a.toInt c.toInt
    rw [← hpoint.1, ← hpoint.2, intExtremes?_self hdiv hk] at h
    cases h
    exact intResult_eq_between hop hk
  · exact rangeResult_eq_between hop h

end ArithmeticOp

theorem CountOp.apply_of_countsAs (op : CountOp) {v : Value} {range : Interval Int32}
    (h : v.CountsAs range) (hv : v.isBounded) :
    op.apply v.normalized =
      .between (range.start.toInt + op.amount) (range.stop.toInt + op.amount) := by
  have hint : ∀ n : Int32, op.apply (.int n) =
      .between (n.toInt + op.amount) (n.toInt + op.amount) := by
    intro n
    rw [apply_int, ArithmeticOp.intResult_eq_between (.inl rfl) rfl, toInt_step]
  cases h with
  | int n => exact hint n
  | intRange =>
    rcases Value.normalized_intRange range with ⟨hrange, hpoint⟩ | ⟨hrange, -⟩
    · rw [hrange, ← hpoint, hint]
    · rw [hrange, apply_intRange, shiftRange_eq_between]
  | _ => cases hv

namespace Eval

variable (options : Options) (state : State) {v l r : Value} {range ls rs : Interval Int32}

theorem run_sign (h : v.CountsAs range) :
    (unary .plus v).run options state =
        (.ok (.between range.start.toInt range.stop.toInt), state) ∧
      (unary .minus v).run options state =
        (.ok (.between (-range.stop.toInt) (-range.start.toInt)), state) := by
  have hdata : v.normalized.isMarker = false := by
    rw [Value.isMarker_normalized]
    cases h <;> rfl
  obtain ⟨hplus, hminus⟩ := Value.signs_of_countsAs h
  unfold unary
  rw [run_bind_ok options state (run_expectData options state hdata),
    run_bind_ok options state (run_expectData options state hdata)]
  dsimp only
  rw [hplus, hminus, run_note, run_note]
  simp only [Noted.quiet, List.append_nil, and_self]

theorem run_arithmetic_between {op : ArithmeticOp} {least greatest : Int}
    (hop : op = .add ∨ op = .sub) (hl : l.CountsAs ls) (hr : r.CountsAs rs)
    (h : op.intExtremes? ls.start.toInt ls.stop.toInt rs.start.toInt rs.stop.toInt =
      some (least, greatest)) :
    (binary l (.arithmetic op) r).run options state = (.ok (.between least greatest), state) := by
  have hdiv := ArithmeticOp.ne_div_of_add_or_sub hop
  rw [run_arithmetic_noted options state op (Value.countsAsNumber_of_countsAs hl)
      (Value.countsAsNumber_of_countsAs hr), run_note, ArithmeticOp.warnings_onOperands hdiv,
    Value.ofValue_of_countsAs hl, Value.ofValue_of_countsAs hr,
    ArithmeticOp.result_onOperands_eq_between hop h, List.append_nil]

theorem run_sum (hl : l.CountsAs ls) (hr : r.CountsAs rs) :
    (binary l (.arithmetic .add) r).run options state =
      (.ok (.between (ls.start.toInt + rs.start.toInt) (ls.stop.toInt + rs.stop.toInt)), state) :=
  run_arithmetic_between options state (.inl rfl) hl hr
    (ArithmeticOp.intExtremes?_add (Int32.le_iff_toInt_le.mp ls.ordered)
      (Int32.le_iff_toInt_le.mp rs.ordered))

theorem run_difference (hl : l.CountsAs ls) (hr : r.CountsAs rs) :
    (binary l (.arithmetic .sub) r).run options state =
      (.ok (.between (ls.start.toInt - rs.stop.toInt) (ls.stop.toInt - rs.start.toInt)), state) :=
  run_arithmetic_between options state (.inr rfl) hl hr
    (ArithmeticOp.intExtremes?_sub (Int32.le_iff_toInt_le.mp ls.ordered)
      (Int32.le_iff_toInt_le.mp rs.ordered))

-- Two calls do the same and report nothing. Their result is made of integers if the numbers that
-- the members of a range come to all have 32 bits, and of floats if one has not.
def Agree (x y : Eval Value) (f : Int → Int) (range : Interval Int32) : Prop :=
  ∃ v, x.run options state = (.ok v, state) ∧ y.run options state = (.ok v, state) ∧
    ((∀ n, range.contains n → -2 ^ 31 ≤ f n.toInt ∧ f n.toInt < 2 ^ 31) →
      v.families = [.integer]) ∧
    ((∃ n, range.contains n ∧ ¬(-2 ^ 31 ≤ f n.toInt ∧ f n.toInt < 2 ^ 31)) →
      v.families = [.float])

-- A sign is a difference from zero or a sum with it, and a step is a sum or a difference with one.
theorem signs_and_steps_agree :
    (∀ v range, Value.CountsAs v range →
      Agree options state (unary .minus v) (binary (.int 0) (.arithmetic .sub) v) (-·) range ∧
      Agree options state (unary .plus v) (binary (.int 0) (.arithmetic .add) v) id range) ∧
    (∀ v range, Value.CountsAs v range → v.isBounded →
      Agree options state (count .increment v) (binary v (.arithmetic .add) (.int 1)) (· + 1)
        range ∧
      Agree options state (count .decrement v) (binary v (.arithmetic .sub) (.int 1)) (· - 1)
        range) := by
  have hends : ∀ range : Interval Int32, range.contains range.start ∧ range.contains range.stop ∧
      ∀ n, range.contains n → range.start.toInt ≤ n.toInt ∧ n.toInt ≤ range.stop.toInt := by
    intro range
    simp only [Interval.contains_iff, ← Int32.le_iff_toInt_le]
    exact ⟨⟨Int32.le_refl _, range.ordered⟩, ⟨range.ordered, Int32.le_refl _⟩, fun _ hn => hn⟩
  constructor
  · intro v range h
    obtain ⟨hstart, hstop, hbetween⟩ := hends range
    obtain ⟨hplus, hminus⟩ := run_sign options state h
    have hdifference := run_difference options state (.int 0) h
    have hsum := run_sum options state (.int 0) h
    simp only [Interval.single, Int32.toInt_zero, Int.zero_sub, Int.zero_add] at hdifference hsum
    refine ⟨⟨_, hminus, hdifference, ?_⟩, ⟨_, hplus, hsum, ?_⟩⟩
    -- Negation turns the order around.
    · exact Value.families_between hstop hstart fun n hn =>
        ⟨Int.neg_le_neg (hbetween n hn).2, Int.neg_le_neg (hbetween n hn).1⟩
    · exact Value.families_between hstart hstop hbetween
  · intro v range h hv
    obtain ⟨hstart, hstop, hbetween⟩ := hends range
    have hcount : ∀ op, (count op v).run options state =
        (.ok (.between (range.start.toInt + op.amount) (range.stop.toInt + op.amount)), state) := by
      intro op
      rw [run_count_data options state op (by cases h <;> rfl), op.apply_of_countsAs h hv]
    have hsum := run_sum options state h (.int 1)
    have hdifference := run_difference options state h (.int 1)
    simp only [Interval.single, Int32.toInt_one] at hsum hdifference
    refine ⟨⟨_, hcount .increment, hsum, ?_⟩, ⟨_, hcount .decrement, hdifference, ?_⟩⟩
    · exact Value.families_between (f := (· + 1)) hstart hstop fun n hn =>
        ⟨Int.add_le_add_right (hbetween n hn).1 1, Int.add_le_add_right (hbetween n hn).2 1⟩
    · exact Value.families_between (f := (· - 1)) hstart hstop fun n hn =>
        ⟨Int.sub_le_sub_right (hbetween n hn).1 1, Int.sub_le_sub_right (hbetween n hn).2 1⟩

def upToZero : Interval Int32 := ⟨Int32.minValue, 0, by decide⟩

-- Negating the least integer and counting down from it give floats, a text of hexadecimal digits
-- gives an integer.
theorem signs_and_steps_agree_upToZero :
    (Value.intRange upToZero).CountsAs upToZero ∧ (Value.intRange upToZero).isBounded ∧
      (Value.str " 0x1Fg").CountsAs (.single 31) ∧
      Agree {} .initial (unary .minus (.intRange upToZero))
        (binary (.int 0) (.arithmetic .sub) (.intRange upToZero)) (-·) upToZero ∧
      Agree {} .initial (count .decrement (.intRange upToZero))
        (binary (.intRange upToZero) (.arithmetic .sub) (.int 1)) (· - 1) upToZero ∧
      Agree {} .initial (unary .minus (.str " 0x1Fg"))
        (binary (.int 0) (.arithmetic .sub) (.str " 0x1Fg")) (-·) (.single 31) ∧
      upToZero.contains Int32.minValue ∧ ¬-Int32.minValue.toInt < 2 ^ 31 := by
  have hrange := Value.CountsAs.intRange upToZero
  have hnumeral : Numeral.ofText true " 0x1Fg" = .int 31 true := by decide
  have htext := Value.CountsAs.numeral hnumeral
  obtain ⟨hsigns, hsteps⟩ := signs_and_steps_agree {} .initial
  exact ⟨hrange, rfl, htext, (hsigns _ _ hrange).1, (hsteps _ _ hrange rfl).2, (hsigns _ _ htext).1,
    by decide, by decide⟩

end Eval

end AbsEval
