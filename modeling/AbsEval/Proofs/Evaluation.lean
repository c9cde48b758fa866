import AbsEval.Eval.Binary
import AbsEval.Eval.Unary
import AbsEval.Value.Meaning
import Mathlib.Tactic.Common

namespace AbsEval

namespace Value

-- What all binary operators but concatenation and logic take.
def isOperand (v : Value) : Bool :=
  !v.isMarker && !v.isLongLike

@[simp] theorem isMarker_normalized (v : Value) : v.normalized.isMarker = v.isMarker := by
  cases v <;> simp only [normalized] <;> try rfl
  all_goals split <;> rfl

@[simp] theorem isLongLike_normalized (v : Value) : v.normalized.isLongLike = v.isLongLike := by
  cases v <;> simp only [normalized] <;> try rfl
  all_goals split <;> rfl

theorem isOperand_normalized {v : Value} (h : v.isOperand) : v.normalized.isOperand := by
  simpa only [isOperand, isMarker_normalized, isLongLike_normalized] using h

theorem normalized_of_isConcrete {v : Value} (h : v.isConcrete) : v.normalized = v := by
  cases v <;> first | rfl | simp [isConcrete] at h

theorem isForeign_of_not_isMarker {v : Value} (h : v.isMarker = false) : v.isForeign = false := by
  cases v <;> first | rfl | simp [isMarker] at h

end Value

theorem LogicOp.evaluate_ok (op : LogicOp) (left : Option Bool)
    (right : Except Fault (Option Bool)) :
    op.evaluate (.ok left) right =
      if op.settledBy left then .ok left else right.map (op.combine left) := rfl

namespace Eval

variable {α β : Type} (options : Options) (state : State)

@[simp] theorem run_pure (a : α) : (pure a : Eval α).run options state = (.ok a, state) := rfl

@[simp] theorem run_throw (fault : Fault) :
    (throw fault : Eval α).run options state = (.error fault, state) := rfl

@[simp] theorem run_read : (read : Eval Options).run options state = (.ok options, state) := rfl

@[simp] theorem run_getStore : getStore.run options state = (.ok state.store, state) := rfl

@[simp] theorem run_warn (warning : Warning) :
    (warn warning).run options state =
      (.ok (), { state with warnings := state.warnings ++ [warning] }) := rfl

@[simp] theorem run_note (x : Noted α) :
    (note x).run options state =
      (.ok x.result, { state with warnings := state.warnings ++ x.warnings }) := rfl

@[simp] theorem run_update (f : Store → α × Store) :
    (update f).run options state =
      (.ok (f state.store).1, { state with store := (f state.store).2 }) := rfl

theorem run_bind (x : Eval α) (f : α → Eval β) :
    (x >>= f).run options state =
      match x.run options state with
      | (.ok a, next) => (f a).run options next
      | (.error fault, next) => (.error fault, next) := by
  show (ExceptT.bind (x options) fun a => f a options) state = _
  unfold run
  simp only [ExceptT.bind, ExceptT.mk, ExceptT.bindCont, bind, StateT.bind]
  rcases x options state with ⟨_ | _, next⟩ <;> rfl

-- A bind whose first part has a known outcome. `rw` with these follows a run step by step.
theorem run_bind_ok {x : Eval α} {f : α → Eval β} {a : α} {next : State}
    (h : x.run options state = (.ok a, next)) :
    (x >>= f).run options state = (f a).run options next := by
  rw [run_bind, h]

theorem run_bind_error {x : Eval α} {f : α → Eval β} {fault : Fault} {next : State}
    (h : x.run options state = (.error fault, next)) :
    (x >>= f).run options state = (.error fault, next) := by
  rw [run_bind, h]

theorem run_bind_eq_ok {x : Eval α} {f : α → Eval β} {b : β} {last : State}
    (h : (x >>= f).run options state = (.ok b, last)) :
    ∃ a next, x.run options state = (.ok a, next) ∧ (f a).run options next = (.ok b, last) := by
  rw [run_bind] at h
  split at h
  · next a next hx => exact ⟨a, next, hx, h⟩
  · cases h

theorem run_bind_pure (x : Eval α) (f : α → β) :
    (x >>= fun a => pure (f a)).run options state =
      ((x.run options state).1.map f, (x.run options state).2) := by
  rw [run_bind]
  rcases x.run options state with ⟨fault | a, next⟩ <;> rfl

theorem run_ofExcept (x : Except Fault α) :
    (ofExcept x).run options state = (x, state) := by
  cases x <;> rfl

theorem run_logicEntry (op : LogicOp) (left right : Entry) :
    (logicEntry op left right).run options state =
      ((op.ofEntries state.store left right).map .ofTruth?, state) := by
  unfold logicEntry
  rw [run_bind_ok options state (run_getStore options state), run_bind_pure, run_ofExcept]

theorem run_binaryEntry_logicEntry (op : LogicOp) (left right : Entry) :
    (binaryEntry left (.logic op) right).run options state =
      ((op.ofEntries state.store left right).map fun truth => .single (.ofTruth? truth), state) := by
  refine (run_bind_pure options state (logicEntry op left right) Entry.single).trans ?_
  rw [run_logicEntry]
  cases op.ofEntries state.store left right <;> rfl

-- Operators other than concatenation and logic go through the values.
theorem binaryEntry_pairs {op : BinaryOp} (hconcat : op ≠ .concat)
    (hlogic : ∀ logic, op ≠ .logic logic) (left right : Entry) :
    binaryEntry left op right =
      ((left.values.flatMap fun l => right.values.map fun r => (l, r)).mapM
        (fun pair => binary pair.1 op pair.2) >>= collect) := by
  cases op with
  | concat => exact absurd rfl hconcat
  | logic op => exact absurd rfl (hlogic op)
  | arithmetic op | bitwise op | compare op | identity op | modulo => rfl

theorem run_rejectForeign_pass {v : Value} (h : v.isForeign = false) :
    (rejectForeign v).run options state = (.ok (), state) := by
  simp [rejectForeign, h]

theorem run_rejectForeign_fail {v : Value} (h : v.isForeign) :
    (rejectForeign v).run options state = (.error (.notAnExpression v.kindName), state) := by
  simp [rejectForeign, h]

theorem run_rejectForeign {v : Value} (h : v.isMarker = false) :
    (rejectForeign v).run options state = (.ok (), state) :=
  run_rejectForeign_pass options state (Value.isForeign_of_not_isMarker h)

theorem run_expectData {v : Value} (h : v.isMarker = false) :
    (expectData v).run options state = (.ok (), state) := by
  simp [expectData, Value.whenData, h, ofExcept]

theorem run_expectData_marker {v : Value} (h : v.isMarker) :
    (expectData v).run options state = (.error (.notAnExpression v.kindName), state) := by
  simp [expectData, Value.whenData, h, ofExcept]

-- The operators that take operands only.
def guarded (left right : Value) (body : Eval Value) : Eval Value := do
  rejectForeign left
  rejectForeign right
  expectOperands left right
  body

theorem isOperand_of_describes {v c : Value} (h : v.Describes c) (hc : ¬c.isLongLike) :
    c.isOperand := by
  have hconcrete := Value.isConcrete_of_describes h
  cases c <;> simp_all [Value.isOperand, Value.isMarker, Value.isConcrete]

theorem run_guarded {left right : Value} (body : Eval Value) (hl : left.isOperand)
    (hr : right.isOperand) : (guarded left right body).run options state =
      body.run options state := by
  simp only [Value.isOperand, Bool.and_eq_true, Bool.not_eq_true'] at hl hr
  have hexpect : (expectOperands left right).run options state = (.ok (), state) := by
    unfold expectOperands
    rw [run_bind_ok options state (run_expectData options state hl.1),
      run_bind_ok options state (run_expectData options state hr.1)]
    simp [hl.2, hr.2]
  unfold guarded
  rw [run_bind_ok options state (run_rejectForeign options state hl.1),
    run_bind_ok options state (run_rejectForeign options state hr.1),
    run_bind_ok options state hexpect]

-- What is no operand fails before the operator. A marker is found first, by the one check or by the
-- other.
theorem run_guarded_marker {left right : Value} (body : Eval Value)
    (h : left.isMarker ∨ right.isMarker) :
    ∃ kindName, (guarded left right body).run options state =
      (.error (.notAnExpression kindName), state) := by
  unfold guarded
  by_cases hl : left.isForeign
  · exact ⟨_, run_bind_error options state (run_rejectForeign_fail options state hl)⟩
  rw [run_bind_ok options state (run_rejectForeign_pass options state (by simpa using hl))]
  by_cases hr : right.isForeign
  · exact ⟨_, run_bind_error options state (run_rejectForeign_fail options state hr)⟩
  rw [run_bind_ok options state (run_rejectForeign_pass options state (by simpa using hr))]
  unfold expectOperands
  by_cases hlm : left.isMarker
  · have hfail := run_expectData_marker options state hlm
    exact ⟨_, run_bind_error options state (run_bind_error options state hfail)⟩
  · have hpass := run_expectData options state (by simpa using hlm)
    have hfail := run_expectData_marker options state (h.resolve_left hlm)
    refine ⟨right.kindName, run_bind_error options state ?_⟩
    rw [run_bind_ok options state hpass, run_bind_error options state hfail]

theorem run_guarded_long {left right : Value} (body : Eval Value) (hl : left.isMarker = false)
    (hr : right.isMarker = false) (h : left.isLongLike ∨ right.isLongLike) :
    ∃ feature, (guarded left right body).run options state =
      (.error (.unsupported feature), state) := by
  have hlong : (left.isLongLike || right.isLongLike) = true := by
    rwa [Bool.or_eq_true]
  unfold guarded expectOperands
  rw [run_bind_ok options state (run_rejectForeign options state hl),
    run_bind_ok options state (run_rejectForeign options state hr)]
  refine ⟨"long integer operands", run_bind_error options state ?_⟩
  rw [run_bind_ok options state (run_expectData options state hl),
    run_bind_ok options state (run_expectData options state hr), if_pos hlong, run_throw]

theorem run_guarded_error {left right : Value} (body : Eval Value)
    (h : ¬(left.isOperand ∧ right.isOperand)) :
    ∃ fault, (guarded left right body).run options state = (.error fault, state) := by
  by_cases hmarker : left.isMarker ∨ right.isMarker
  · obtain ⟨kindName, hrun⟩ := run_guarded_marker options state body hmarker
    exact ⟨_, hrun⟩
  · simp only [not_or, Bool.not_eq_true] at hmarker
    have hlong : left.isLongLike ∨ right.isLongLike := by
      by_contra hn
      simp only [not_or, Bool.not_eq_true] at hn
      exact h (by simp [Value.isOperand, hmarker, hn])
    obtain ⟨feature, hrun⟩ := run_guarded_long options state body hmarker.1 hmarker.2 hlong
    exact ⟨_, hrun⟩

theorem isOperand_of_run_guarded {left right v : Value} {body : Eval Value}
    (h : ((guarded left right body).run options state).1 = .ok v) :
    left.isOperand ∧ right.isOperand := by
  by_contra hn
  obtain ⟨fault, hf⟩ := run_guarded_error options state body hn
  rw [hf] at h
  cases h

end Eval

end AbsEval
