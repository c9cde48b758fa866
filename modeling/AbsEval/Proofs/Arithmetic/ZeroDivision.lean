import AbsEval.Proofs.Arithmetic.Remainder
import AbsEval.Proofs.Comparison.Loose

namespace AbsEval

variable {l r l' r' v c : Value} {store : Store}

def Noted.Raises {α : Type} (x : Noted α) (cause : Cause) : Prop :=
  ∃ w ∈ x.warnings, w.cause = cause

theorem Noted.raises_warned_iff {α : Type} {a : α} {w : Warning} {cause : Cause} :
    (Noted.warned a w).Raises cause ↔ w.cause = cause := by
  simp [Raises, warned]

theorem Noted.not_raises_quiet {α : Type} (a : α) (cause : Cause) :
    ¬(Noted.quiet a).Raises cause := by
  simp [Raises, quiet]

-- A run raises the warnings it adds to those it finds.
def Eval.Raises {α : Type} (options : Options) (state : State) (x : Eval α) (cause : Cause) :
    Prop :=
  ∃ added, (x.run options state).2.warnings = state.warnings ++ added ∧
    ∃ w ∈ added, w.cause = cause

theorem Eval.raises_iff {α : Type} {options : Options} {state : State} {x : Eval α}
    {noted : Noted α} {cause : Cause} (h : x.run options state = (note noted).run options state) :
    Raises options state x cause ↔ noted.Raises cause := by
  unfold Raises
  rw [h, run_note]
  constructor
  · rintro ⟨added, hadded, hw⟩
    obtain rfl := List.append_cancel_left hadded
    exact hw
  · intro hw
    exact ⟨noted.warnings, rfl, hw⟩

-- Division: arrays and objects have no quotients, all else is taken for a number.

theorem Value.isObjectLike_of_admits (h : v.Admits c) (hv : v.isObjectLike) : c.isObjectLike := by
  rcases h with h | ⟨x, y, rfl, -, -⟩
  · cases v <;> try (obtain rfl := h; exact hv)
    case any kind =>
      cases kind <;> cases hv
      obtain ⟨id, className, rfl⟩ := exists_object_of_describes h
      rfl
    all_goals cases hv
  · cases hv

namespace ArithmeticOp

theorem raises_onOperands_iff {a b : Operand} :
    (div.onOperands a b).Raises .divisionByZero ↔ b.mayBeZero := by
  unfold onOperands
  by_cases hzero : b.mayBeZero
  · rw [if_pos (by simpa using hzero)]
    refine iff_of_true ?_ hzero
    cases b <;> exact Noted.raises_warned_iff.mpr rfl
  · rw [if_neg (by simpa using hzero)]
    refine iff_of_false ?_ hzero
    split <;> try exact Noted.not_raises_quiet _ _
    split <;> exact Noted.not_raises_quiet _ _

theorem not_raises_onArrays (l r : Value) : ¬(div.onArrays l r).Raises .divisionByZero := by
  have hwarned : ¬(Noted.warned (Value.any .value)
      (.unsupportedOperands l div r)).Raises .divisionByZero := by
    rw [Noted.raises_warned_iff]
    exact Cause.noConfusion
  unfold onArrays
  split
  · exact hwarned
  · split
    · exact Noted.not_raises_quiet _ _
    · exact hwarned

theorem raises_apply_iff : (div.apply l r).Raises .divisionByZero ↔
    (l.isArrayLike || r.isArrayLike) = false ∧ (l.isObjectLike || r.isObjectLike) = false ∧
      (Operand.ofValue r).mayBeZero := by
  unfold apply
  by_cases harray : l.isArrayLike || r.isArrayLike
  · rw [if_pos harray]
    simpa [harray] using not_raises_onArrays l r
  · rw [if_neg harray]
    by_cases hobject : l.isObjectLike || r.isObjectLike
    · rw [if_pos hobject, Noted.raises_warned_iff]
      exact iff_of_false Cause.noConfusion (by simp [hobject])
    · rw [if_neg hobject, raises_onOperands_iff]
      simp [harray, hobject]

end ArithmeticOp

-- Zero is among the numbers of an operand if it is among those of one of its members.
theorem Operand.mayBeZero_of_admits (h : v.Admits c) (hc : (ofValue c).mayBeZero) :
    (ofValue v).mayBeZero := by
  cases v with
  | float x =>
    obtain ⟨y, rfl, hy⟩ := Value.float_of_admits h
    exact (Double.isZero_congr hy).symm.trans hc
  | intRange range =>
    obtain ⟨n, rfl, hn⟩ := Value.intRange_of_admits h
    obtain ⟨hlow, hhigh⟩ := Interval.contains_iff.mp hn
    obtain rfl : n = 0 := of_decide_eq_true hc
    exact Bool.and_eq_true_iff.mpr ⟨decide_eq_true hlow, decide_eq_true hhigh⟩
  | floatRange range =>
    obtain ⟨x, rfl, hx⟩ := Value.floatRange_of_admits h
    obtain ⟨hlow, hhigh⟩ := Interval.contains_iff.mp hx
    obtain ⟨hle, hge⟩ := Double.isZero_iff.mp hc
    exact Bool.and_eq_true_iff.mpr
      ⟨decide_eq_true (Double.le_trans hlow hle), decide_eq_true (Double.le_trans hge hhigh)⟩
  | any kind => cases kind <;> rfl
  | long n | longRange range | marker m => rfl
  | _ =>
    obtain rfl := Value.eq_of_admits rfl (by simp [Value.families]) h
    exact hc

theorem ArithmeticOp.raises_apply_of_admits (hl : l.Admits l') (hr : r.Admits r')
    (h : (div.apply l' r').Raises .divisionByZero) :
    (div.apply l r).Raises .divisionByZero := by
  obtain ⟨harray, hobject, hzero⟩ := raises_apply_iff.mp h
  rw [Bool.or_eq_false_iff] at harray hobject
  refine raises_apply_iff.mpr ⟨?_, ?_, Operand.mayBeZero_of_admits hr hzero⟩
  · rw [Bool.or_eq_false_iff, ← Bool.not_eq_true, ← Bool.not_eq_true]
    exact ⟨mt (Value.isArrayLike_of_admits hl) (by simp [harray.1]),
      mt (Value.isArrayLike_of_admits hr) (by simp [harray.2])⟩
  · rw [Bool.or_eq_false_iff, ← Bool.not_eq_true, ← Bool.not_eq_true]
    exact ⟨mt (Value.isObjectLike_of_admits hl) (by simp [hobject.1]),
      mt (Value.isObjectLike_of_admits hr) (by simp [hobject.2])⟩

theorem ArithmeticOp.covers_false_of_raises (h : (div.apply l r).Raises .divisionByZero) :
    (div.apply l r).result.Covers (.bool false) := by
  obtain ⟨harray, hobject, hzero⟩ := raises_apply_iff.mp h
  have happly : div.apply l r = divisionByZero (.ofValue r) := by
    unfold apply onOperands
    simp [harray, hobject, hzero]
  rw [happly]
  cases Operand.ofValue r with
  | int n | float x => exact Value.covers_refl _
  | _ => exact Value.any_value_covers _

-- Remainder: a divisor without a least magnitude may be zero.

namespace Remainder

variable {dividend divisor member : Operand}

theorem raises_ofOperands_iff :
    (ofOperands dividend divisor).Raises .divisionByZero ↔ magnitudes? divisor = none := by
  unfold ofOperands
  cases hmagnitudes : magnitudes? divisor with
  | none =>
    refine iff_of_true ?_ rfl
    cases divisor <;> exact Noted.raises_warned_iff.mpr rfl
  | some magnitudes =>
    refine iff_of_false ?_ (by simp)
    cases dividend with
    | point n => cases divisor <;> exact Noted.not_raises_quiet _ _
    | _ => exact Noted.not_raises_quiet _ _

-- What is said of an object as an operand is no division by zero.
theorem not_raises_operand (store : Store) (v : Value) :
    ¬(operand store v).Raises .divisionByZero := by
  have hobject (text : String) :
      ¬(Noted.warned Operand.unknown (.objectToIntegerBy text)).Raises .divisionByZero := by
    rw [Noted.raises_warned_iff]
    exact Cause.noConfusion
  cases v with
  | object id className => exact hobject _
  | any kind => cases kind <;> first | exact Noted.not_raises_quiet _ _ | exact hobject _
  | _ => exact Noted.not_raises_quiet _ _

theorem raises_apply_iff : (apply store l r).Raises .divisionByZero ↔
    magnitudes? (operand store r).result = none := by
  rw [← raises_ofOperands_iff]
  constructor
  · rintro ⟨w, hw, hcause⟩
    rcases List.mem_append.mp hw with hw | hw
    · rcases List.mem_append.mp hw with hw | hw
      · exact absurd ⟨w, hw, hcause⟩ (not_raises_operand store l)
      · exact absurd ⟨w, hw, hcause⟩ (not_raises_operand store r)
    · exact ⟨w, hw, hcause⟩
  · rintro ⟨w, hw, hcause⟩
    exact ⟨w, List.mem_append_right _ hw, hcause⟩

theorem magnitudes?_eq_none_of_encloses (h : divisor.Encloses member)
    (hm : magnitudes? member = none) : magnitudes? divisor = none := by
  by_contra hsome
  obtain ⟨magnitudes, hsome⟩ := Option.ne_none_iff_exists'.mp hsome
  obtain ⟨low, high, hspan, hzero, -, -⟩ := magnitudes?_eq_some_iff.mp hsome
  obtain ⟨d, rfl, hlow, hhigh⟩ := h low high hspan
  rw [magnitudes?_point (natAbs_between hzero hlow hhigh).1] at hm
  cases hm

theorem covers_false_of_raises (h : (apply store l r).Raises .divisionByZero) :
    (apply store l r).result.Covers (.bool false) := by
  rw [raises_apply_iff] at h
  have happly : (apply store l r).result = (ofOperands (operand store l).result
      (operand store r).result).result := rfl
  rw [happly]
  unfold ofOperands
  rw [h]
  cases (operand store r).result with
  | point n => exact Value.covers_refl _
  | _ => exact Value.any_value_covers _

end Remainder

-- The operators that divide, with what each finds of two operands.
inductive BinaryOp.Divides (store : Store) : BinaryOp → (Value → Value → Noted Value) → Prop
  | div : Divides store (.arithmetic .div) ArithmeticOp.div.apply
  | modulo : Divides store .modulo (Remainder.apply store)

variable {op : BinaryOp} {find : Value → Value → Noted Value}

theorem BinaryOp.exists_divides (store : Store) (h : op = .arithmetic .div ∨ op = .modulo) :
    ∃ find, op.Divides store find := by
  rcases h with rfl | rfl
  · exact ⟨_, .div⟩
  · exact ⟨_, .modulo⟩

theorem BinaryOp.Divides.raises_of_admits (hop : op.Divides store find) (hl : l.Admits l')
    (hr : r.Admits r') (h : (find l' r').Raises .divisionByZero) :
    (find l r).Raises .divisionByZero := by
  cases hop with
  | div => exact ArithmeticOp.raises_apply_of_admits hl hr h
  | modulo =>
    rw [Remainder.raises_apply_iff] at h ⊢
    exact Remainder.magnitudes?_eq_none_of_encloses (Remainder.operand_encloses hr) h

theorem BinaryOp.Divides.covers_false (hop : op.Divides store find)
    (h : (find l r).Raises .divisionByZero) : (find l r).result.Covers (.bool false) := by
  cases hop with
  | div => exact ArithmeticOp.covers_false_of_raises h
  | modulo => exact Remainder.covers_false_of_raises h

namespace Eval

variable (options : Options) (state : State)

theorem run_division (hop : op.Divides state.store find) (hl : l.isOperand) (hr : r.isOperand) :
    (binary l op r).run options state =
      (note (find l.normalized r.normalized)).run options state := by
  have hl' := Value.isOperand_normalized hl
  have hr' := Value.isOperand_normalized hr
  cases hop with
  | div => exact run_guarded options state (arithmetic .div _ _) hl' hr'
  | modulo =>
    exact run_guarded options state (getStore >>= fun store => note (Remainder.apply store _ _))
      hl' hr'

-- If some members of the operands are divided by zero, this is reported, and false is among the
-- results.
theorem division_by_zero_reported (hop : op = .arithmetic .div ∨ op = .modulo) (hl : l.isOperand)
    (hr : r.isOperand) (hl' : l.Describes l') (hr' : r.Describes r')
    (hlong : l'.isLongLike = false) (hlong' : r'.isLongLike = false)
    (h : Raises options state (binary l' op r') .divisionByZero) :
    Raises options state (binary l op r) .divisionByZero ∧
      ∃ v, ((binary l op r).run options state).1 = .ok v ∧ v.Covers (.bool false) := by
  obtain ⟨find, hdivides⟩ := BinaryOp.exists_divides state.store hop
  have hlo := isOperand_of_describes hl' (by simp [hlong])
  have hro := isOperand_of_describes hr' (by simp [hlong'])
  rw [raises_iff (run_division options state hdivides hlo hro),
    Value.normalized_of_isConcrete (Value.isConcrete_of_describes hl'),
    Value.normalized_of_isConcrete (Value.isConcrete_of_describes hr')] at h
  have hraised := hdivides.raises_of_admits (Value.admits_normalized hl')
    (Value.admits_normalized hr') h
  have hrun := run_division options state hdivides hl hr
  refine ⟨(raises_iff hrun).mpr hraised, _, ?_, hdivides.covers_false hraised⟩
  rw [hrun, run_note]

-- A text that is read as zero, and an array that has no elements.
theorem division_by_zero_reported_hidden :
    (Value.any .value).isOperand ∧ (Value.any .scalar).isOperand ∧ (Value.any .array).isOperand ∧
      (Value.any .value).Describes (.int 1) ∧ (Value.any .scalar).Describes (.str "0x0") ∧
      (Value.any .array).Describes (.array 0) ∧
      Raises {} .initial (binary (.int 1) (.arithmetic .div) (.str "0x0")) .divisionByZero ∧
      Raises {} .initial (binary (.int 1) .modulo (.array 0)) .divisionByZero ∧
      (Raises {} .initial (binary (.any .value) (.arithmetic .div) (.any .scalar)) .divisionByZero ∧
        ∃ v, ((binary (.any .value) (.arithmetic .div) (.any .scalar)).run {} .initial).1 = .ok v ∧
          v.Covers (.bool false)) ∧
      Raises {} .initial (binary (.any .value) .modulo (.any .array)) .divisionByZero ∧
        ∃ v, ((binary (.any .value) .modulo (.any .array)).run {} .initial).1 = .ok v ∧
          v.Covers (.bool false) := by
  have hone : (Value.any .value).Describes (.int 1) := ⟨rfl, by decide⟩
  have hscalar : (Value.any .scalar).Describes (.str "0x0") := ⟨rfl, by decide⟩
  have harray : (Value.any .array).Describes (.array 0) := ⟨rfl, by decide⟩
  have hdiv : Raises {} .initial (binary (.int 1) (.arithmetic .div) (.str "0x0"))
      .divisionByZero := by
    rw [raises_iff (run_division {} .initial .div rfl rfl), ArithmeticOp.raises_apply_iff]
    exact ⟨rfl, rfl, by decide⟩
  have hmodulo : Raises {} .initial (binary (.int 1) .modulo (.array 0)) .divisionByZero := by
    rw [raises_iff (run_division {} .initial .modulo rfl rfl), Remainder.raises_apply_iff]
    rfl
  exact ⟨rfl, rfl, rfl, hone, hscalar, harray, hdiv, hmodulo,
    division_by_zero_reported {} .initial (.inl rfl) rfl rfl hone hscalar rfl rfl hdiv,
    division_by_zero_reported {} .initial (.inr rfl) rfl rfl hone harray rfl rfl hmodulo⟩

end Eval

end AbsEval
