import AbsEval.Proofs.Conversion.Unary
import AbsEval.Proofs.Evaluation.Effects
import AbsEval.Proofs.Evaluation.Singleton

namespace AbsEval

def Value.isLambda : Value → Bool
  | marker (.lambda _) => true
  | _ => false

theorem Value.isMarker_iff {v : Value} : v.isMarker ↔ v.isForeign ∨ v.isLambda := by
  cases v with
  | marker m => cases m <;> simp [isMarker, isForeign, isLambda]
  | _ => simp [isMarker, isForeign, isLambda]

theorem Value.isMarker_eq_false {v : Value} (hforeign : v.isForeign = false)
    (hlambda : ¬v.isLambda) : v.isMarker = false := by
  rw [Bool.eq_false_iff, ne_eq, isMarker_iff, hforeign]
  simpa using hlambda

theorem Value.operandTruth_lambda (store : Store) {v : Value} (h : v.isLambda) :
    ∃ feature, v.operandTruth store = .error (.unsupported feature) := by
  cases v with
  | marker m => cases m <;> first | exact ⟨_, rfl⟩ | cases h
  | _ => cases h

-- The casts that no value has a result for.
def UnaryOp.isUnsupported : UnaryOp → Bool
  | cast .int8 | cast .int16 | cast .int64 => true
  | cast .uint8 | cast .uint16 | cast .uint32 | cast .uint64 => true
  | cast .binary => true
  | _ => false

-- The truth of the left operand is the result whatever the right one is.
def LogicOp.DecidedBy (op : LogicOp) (store : Store) (left : Value) : Prop :=
  op = .and ∧ left.truth? store = some false ∨ op = .or ∧ left.truth? store = some true

theorem LogicOp.settledBy_iff {op : LogicOp} {store : Store} {left : Value} :
    op.settledBy (left.truth? store) ↔ op.DecidedBy store left := by
  unfold DecidedBy
  rcases left.truth? store with _ | _ | _ <;> cases op <;> decide

namespace BinaryOp

-- Operands that are no data. Logic leaves lambda functions to itself.
def Rejects (left : Value) (op : BinaryOp) (right : Value) : Prop :=
  left.isForeign ∨ right.isForeign ∨
    (∀ logic, op ≠ .logic logic) ∧ (left.isLambda ∨ right.isLambda)

-- Operands that are not followed through the operator. The right one may not be reached by logic.
def Lacks (store : Store) (left : Value) (op : BinaryOp) (right : Value) : Prop :=
  match op with
  | logic op => left.isLambda ∨ right.isLambda ∧ ¬op.DecidedBy store left
  | concat => False
  | _ => left.isLongLike ∨ right.isLongLike

theorem rejects_iff {left right : Value} {op : BinaryOp} (h : ∀ logic, op ≠ .logic logic) :
    Rejects left op right ↔ left.isMarker ∨ right.isMarker := by
  simp only [Rejects, Value.isMarker_iff]
  tauto

end BinaryOp

namespace Eval

variable (options : Options) (state : State)

-- There is no result exactly where one of two conditions holds. The first comes first, each has a
-- fault of its own, and a failure leaves no trace.
structure FailsIff (x : Eval Value) (invalid unsupported : Prop) : Prop where
  invalid_iff :
    (∃ kindName, (x.run options state).1 = .error (.notAnExpression kindName)) ↔ invalid
  unsupported_iff :
    (∃ feature, (x.run options state).1 = .error (.unsupported feature)) ↔ ¬invalid ∧ unsupported
  fails_iff : (∃ fault, (x.run options state).1 = .error fault) ↔ invalid ∨ unsupported
  unchanged : ∀ fault, (x.run options state).1 = .error fault → (x.run options state).2 = state

variable {options state}

theorem failsIff_of_cases {x : Eval Value} {invalid unsupported : Prop}
    (hinvalid : invalid →
      ∃ kindName, x.run options state = (.error (.notAnExpression kindName), state))
    (hunsupported : ¬invalid → unsupported →
      ∃ feature, x.run options state = (.error (.unsupported feature), state))
    (hok : ¬invalid → ¬unsupported → ∃ v, (x.run options state).1 = .ok v) :
    FailsIff options state x invalid unsupported := by
  by_cases hi : invalid
  · obtain ⟨kindName, hrun⟩ := hinvalid hi
    constructor <;> simp [hrun, hi]
  by_cases hu : unsupported
  · obtain ⟨feature, hrun⟩ := hunsupported hi hu
    constructor <;> simp [hrun, hi, hu]
  · obtain ⟨v, hrun⟩ := hok hi hu
    constructor <;> simp [hrun, hi, hu]

theorem FailsIff.congr {x : Eval Value} {invalid invalid' unsupported : Prop}
    (h : FailsIff options state x invalid unsupported) (hiff : invalid ↔ invalid') :
    FailsIff options state x invalid' unsupported :=
  propext hiff ▸ h

theorem failsIff_unary (op : UnaryOp) (v : Value) :
    FailsIff options state (unary op v) v.isMarker op.isUnsupported := by
  apply failsIff_of_cases
  · intro h
    exact ⟨_, run_bind_error options state (run_expectData_marker options state (by simpa using h))⟩
  · intro h hop
    have hpass := run_expectData options state (v := v.normalized) (by simpa using h)
    unfold unary
    rw [run_bind_ok options state hpass]
    cases op with
    | cast op => cases op <;> first | exact ⟨_, rfl⟩ | cases hop
    | _ => cases hop
  · intro h hop
    have hdata : v.normalized.isMarker = false := by simpa using h
    unfold unary
    rw [run_bind_ok options state (run_expectData options state hdata)]
    cases op with
    | cast op =>
      cases op with
      | string | unicode => exact ⟨_, run_asText options state hdata⟩
      | object => exact ⟨_, run_toObject options state hdata⟩
      | array => exact ⟨_, run_toArray options state hdata⟩
      | int32 | float | double | bool | unset => exact ⟨_, rfl⟩
      | int8 | int16 | int64 | uint8 | uint16 | uint32 | uint64 | binary => exact absurd rfl hop
    | clone =>
      dsimp only
      unfold clone
      split <;> exact ⟨_, rfl⟩
    | plus | minus | not | complement | print | silence => exact ⟨_, rfl⟩

theorem failsIff_count (op : CountOp) (v : Value) :
    FailsIff options state (count op v) v.isMarker False := by
  apply failsIff_of_cases
  · intro h
    exact ⟨_, run_bind_error options state (run_expectData_marker options state (by simpa using h))⟩
  · exact fun _ hfalse => hfalse.elim
  · intro h _
    have hpass := run_expectData options state (v := v.normalized) (by simpa using h)
    unfold count
    rw [run_bind_ok options state hpass]
    exact ⟨_, rfl⟩

-- An operator that takes all operands fails on nothing else.
theorem failsIff_guarded (left right : Value) {body : Eval Value}
    (hbody : ∃ v, (body.run options state).1 = .ok v) :
    FailsIff options state (guarded left right body) (left.isMarker ∨ right.isMarker)
      (left.isLongLike ∨ right.isLongLike) := by
  apply failsIff_of_cases
  · exact run_guarded_marker options state body
  · intro hmarker hlong
    simp only [not_or, Bool.not_eq_true] at hmarker
    exact run_guarded_long options state body hmarker.1 hmarker.2 hlong
  · intro hmarker hlong
    simp only [not_or, Bool.not_eq_true] at hmarker hlong
    have hl : left.isOperand := by simp [Value.isOperand, hmarker.1, hlong.1]
    have hr : right.isOperand := by simp [Value.isOperand, hmarker.2, hlong.2]
    rw [run_guarded options state body hl hr]
    exact hbody

theorem exists_run_identity (op : IdentityOp) (left right : Value) :
    ∃ v, ((identity op left right).run options state).1 = .ok v := by
  unfold identity
  rw [run_bind_ok options state (run_read options state)]
  split <;> exact ⟨_, rfl⟩

theorem exists_run_arithmetic (op : ArithmeticOp) (left right : Value) :
    ∃ v, ((arithmetic op left right).run options state).1 = .ok v := by
  unfold arithmetic
  split
  · rw [run_bind_ok options state (run_read options state)]
    split <;> exact ⟨_, rfl⟩
  · exact ⟨_, rfl⟩

theorem failsIff_logic (op : LogicOp) (l r : Value) :
    FailsIff options state (binary l (.logic op) r) (BinaryOp.Rejects l (.logic op) r)
      (BinaryOp.Lacks state.store l (.logic op) r) := by
  have hrejects : BinaryOp.Rejects l (.logic op) r ↔ l.isForeign ∨ r.isForeign := by
    simp [BinaryOp.Rejects]
  refine FailsIff.congr (failsIff_of_cases ?_ ?_ ?_) hrejects.symm
  · exact run_binary_foreign options state (.logic op)
  · intro hforeign hlacks
    simp only [not_or, Bool.not_eq_true] at hforeign
    rw [run_binary_logic options state op hforeign.1 hforeign.2]
    by_cases hl : l.isLambda
    · obtain ⟨feature, hfault⟩ := Value.operandTruth_lambda state.store hl
      unfold LogicOp.ofValues LogicOp.evaluate
      rw [hfault]
      exact ⟨feature, rfl⟩
    · obtain ⟨hr, hopen⟩ := hlacks.resolve_left hl
      have hdata := Value.isMarker_eq_false hforeign.1 hl
      obtain ⟨feature, hfault⟩ := Value.operandTruth_lambda state.store hr
      rw [ofValues_data hdata, if_neg (mt LogicOp.settledBy_iff.mp hopen), hfault]
      exact ⟨feature, rfl⟩
  · intro hforeign hlacks
    simp only [not_or, Bool.not_eq_true] at hforeign
    obtain ⟨hl, hr⟩ := not_or.mp hlacks
    have hdata := Value.isMarker_eq_false hforeign.1 hl
    rw [run_binary_logic options state op hforeign.1 hforeign.2, ofValues_data hdata]
    split
    · exact ⟨_, rfl⟩
    · next hsettled =>
      -- The right operand is reached, so it is data as well.
      have hreached := mt LogicOp.settledBy_iff.mpr hsettled
      have hdata' := Value.isMarker_eq_false hforeign.2 fun h => hr ⟨h, hreached⟩
      rw [Value.operandTruth_eq hdata']
      exact ⟨_, rfl⟩

theorem failsIff_concat (l r : Value) :
    FailsIff options state (binary l .concat r) (BinaryOp.Rejects l .concat r)
      (BinaryOp.Lacks state.store l .concat r) := by
  refine FailsIff.congr (failsIff_of_cases ?_ ?_ ?_) (BinaryOp.rejects_iff (by simp)).symm
  · exact run_binary_concat_marker options state
  · exact fun _ hlacks => hlacks.elim
  · intro hmarker _
    simp only [not_or, Bool.not_eq_true] at hmarker
    rw [run_binary_concat_data options state hmarker.1 hmarker.2]
    exact ⟨_, rfl⟩

theorem failsIff_binary (l : Value) (op : BinaryOp) (r : Value) :
    FailsIff options state (binary l op r) (BinaryOp.Rejects l op r)
      (BinaryOp.Lacks state.store l op r) := by
  -- All but concatenation and logic look at their operands before they start.
  have hguarded : ∀ (body : Eval Value), (∀ logic, op ≠ .logic logic) →
      (∃ v, (body.run options state).1 = .ok v) →
      FailsIff options state (guarded l.normalized r.normalized body) (BinaryOp.Rejects l op r)
        (l.isLongLike ∨ r.isLongLike) := by
    intro body hop hbody
    have hfails := failsIff_guarded l.normalized r.normalized hbody
    simp only [Value.isMarker_normalized, Value.isLongLike_normalized] at hfails
    exact hfails.congr (BinaryOp.rejects_iff hop).symm
  cases op with
  | logic op => exact failsIff_logic op l r
  | concat => exact failsIff_concat l r
  | identity op => exact hguarded _ (by simp) (exists_run_identity op _ _)
  | compare op => exact hguarded _ (by simp) ⟨_, rfl⟩
  | arithmetic op => exact hguarded _ (by simp) (exists_run_arithmetic op _ _)
  | bitwise op => exact hguarded (do note (op.apply (← getStore) _ _)) (by simp) ⟨_, rfl⟩
  | modulo => exact hguarded (do note (Remainder.apply (← getStore) _ _)) (by simp) ⟨_, rfl⟩

-- All keys of a literal are found before its array is made.
theorem store_of_arrayLiteral_error {items : List (Option Entry × Entry)} {fault : Fault}
    (h : ((arrayLiteral items).run options state).1 = .error fault) :
    ((arrayLiteral items).run options state).2.store = state.store := by
  have hkeys : Observes options (literalKeys (items.map Prod.fst)) := observes_itemKeys _ _
  have hstore := hkeys.store_eq state
  unfold arrayLiteral at h ⊢
  rcases hrun : (literalKeys (items.map Prod.fst)).run options state with ⟨fault' | keys, next⟩
  · rw [hrun] at hstore
    rw [run_bind_error options state hrun]
    exact hstore
  · rw [run_bind_ok options state hrun] at h
    cases h

-- When each evaluator has no result, and that a failure changes nothing. A literal that fails may
-- have reported illegal keys before.
theorem evaluators_failsIff (options : Options) (state : State) :
    (∀ op v, FailsIff options state (unary op v) v.isMarker op.isUnsupported) ∧
    (∀ op v, FailsIff options state (count op v) v.isMarker False) ∧
    (∀ l op r, FailsIff options state (binary l op r) (BinaryOp.Rejects l op r)
      (BinaryOp.Lacks state.store l op r)) ∧
    ∀ items fault, ((arrayLiteral items).run options state).1 = .error fault →
      ((arrayLiteral items).run options state).2.store = state.store :=
  ⟨failsIff_unary, failsIff_count, failsIff_binary, fun _ _ => store_of_arrayLiteral_error⟩

-- An array as a key is reported and left out, a type ends the evaluation.
def arrayThenType : List (Option Entry × Entry) :=
  [(some (.single (.array 0)), .single .null), (some (.single (.marker (.type "A"))), .single .null)]

-- A literal that fails late, and a lambda function that a conjunction reaches or does not.
theorem evaluators_failsIff_arrayThenType :
    let literal := (arrayLiteral arrayThenType).run {} .initial
    literal.1 = .error (.notAnExpression "type") ∧
      literal.2.warnings = [.illegalOffsetInLiteral] ∧
      literal.2.store = .empty ∧
      (∃ feature, ((binary (.bool true) (.logic .and) (.marker (.lambda 0))).run {} .initial).1 =
        .error (.unsupported feature)) ∧
      ¬∃ fault, ((binary (.bool false) (.logic .and) (.marker (.lambda 0))).run {} .initial).1 =
        .error fault := by
  intro literal
  obtain ⟨-, -, hbinary, hliteral⟩ := evaluators_failsIff {} .initial
  have hfault : literal.1 = .error (.notAnExpression "type") := by decide +kernel
  have hwarnings : literal.2.warnings = [.illegalOffsetInLiteral] := by decide +kernel
  refine ⟨hfault, hwarnings, hliteral arrayThenType _ hfault, ?_, ?_⟩
  · rw [(hbinary _ _ _).unsupported_iff]
    simp [BinaryOp.Rejects, BinaryOp.Lacks, LogicOp.DecidedBy, Value.isForeign, Value.isLambda,
      Value.truth?]
  · rw [(hbinary _ _ _).fails_iff]
    simp [BinaryOp.Rejects, BinaryOp.Lacks, LogicOp.DecidedBy, Value.isForeign, Value.isLambda,
      Value.truth?]

end Eval

end AbsEval
