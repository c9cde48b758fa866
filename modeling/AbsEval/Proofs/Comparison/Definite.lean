import AbsEval.Proofs.Comparison.Identity
import AbsEval.Proofs.Comparison.Loose
import AbsEval.Proofs.Evaluation

namespace AbsEval

-- The operators that answer with a truth about two values.
def BinaryOp.isComparison : BinaryOp → Bool
  | compare _ | identity _ => true
  | _ => false

theorem Value.ofTruth?_eq_bool {truth : Option Bool} {b : Bool} :
    Value.ofTruth? truth = .bool b ↔ truth = some b := by
  cases truth <;> simp [Value.ofTruth?]

-- A truth that is definite under some condition, as a value.
theorem Value.ofTruth?_exact {truth : Option Bool} {p : Bool → Prop}
    (h : ∀ b, truth = some b ↔ p b) :
    (∀ b, Value.ofTruth? truth = .bool b ↔ p b) ∧
      ((¬∃ b, p b) → Value.ofTruth? truth = .any .boolean) := by
  refine ⟨fun b => Value.ofTruth?_eq_bool.trans (h b), fun hnone => ?_⟩
  cases truth with
  | none => rfl
  | some b => exact absurd ⟨b, (h b).mp rfl⟩ hnone

namespace Eval

variable (options : Options) (state : State) {l r l' r' : Value} {b : Bool}

theorem run_identity (op : IdentityOp) (l r : Value) :
    ((identity op l r).run options state).1 = .ok (.ofTruth? (op.holds? (l.same? r))) := by
  unfold identity
  rw [run_bind_ok options state (run_read options state)]
  split
  · rw [run_bind_ok options state (run_warn options state _)]
    rfl
  · rfl

theorem run_compare (op : CompareOp) (l r : Value) :
    ((compare op l r).run options state).1 =
      .ok (.ofTruth? (l.compare? state.store op r).result) := by
  unfold compare
  rw [run_bind_ok options state (run_getStore options state),
    run_bind_ok options state (run_note options state _)]
  rfl

theorem holds?_of_admits {op : IdentityOp} (hl : l.Admits l') (hr : r.Admits r')
    (h : op.holds? (l.same? r) = some b) : op.holds? (l'.same? r') = some b := by
  cases op with
  | identical => exact Value.same?_of_admits hl hr h
  | notIdentical =>
    obtain ⟨c, hc, rfl⟩ := Option.map_eq_some_iff.mp h
    simp [IdentityOp.holds?, Value.same?_of_admits hl hr hc]

-- An operator that answers with a truth, and answers the same of all that its operands stand for.
theorem guarded_of_describes {answer : Value → Value → Eval Value}
    {truth? : Value → Value → Option Bool}
    (hrun : ∀ l r, ((answer l r).run options state).1 = .ok (.ofTruth? (truth? l r)))
    (htruth : ∀ {l r l' r' b}, l.Admits l' → r.Admits r' → truth? l r = some b →
      truth? l' r' = some b)
    (hl : l.Describes l') (hr : r.Describes r') (hll : ¬l'.isLongLike) (hrl : ¬r'.isLongLike)
    (h : ((guarded l.normalized r.normalized (answer l.normalized r.normalized)).run
      options state).1 = .ok (.bool b)) :
    ((guarded l'.normalized r'.normalized (answer l'.normalized r'.normalized)).run
      options state).1 = .ok (.bool b) := by
  obtain ⟨hlo, hro⟩ := isOperand_of_run_guarded options state h
  rw [run_guarded options state _ hlo hro, hrun, Except.ok.injEq, Value.ofTruth?_eq_bool] at h
  have hln := Value.normalized_of_isConcrete (Value.isConcrete_of_describes hl)
  have hrn := Value.normalized_of_isConcrete (Value.isConcrete_of_describes hr)
  have hlo' := isOperand_of_describes hl hll
  have hro' := isOperand_of_describes hr hrl
  rw [hln, hrn, run_guarded options state _ hlo' hro', hrun, Except.ok.injEq,
    Value.ofTruth?_eq_bool]
  exact htruth (Value.admits_normalized hl) (Value.admits_normalized hr) h

-- A comparison that is decided for two values is decided in the same way for all that these stand
-- for, save long integers, which are not compared.
theorem comparison_of_describes {op : BinaryOp} (hop : op.isComparison) (hl : l.Describes l')
    (hr : r.Describes r') (hll : ¬l'.isLongLike) (hrl : ¬r'.isLongLike)
    (h : ((binary l op r).run options state).1 = .ok (.bool b)) :
    ((binary l' op r').run options state).1 = .ok (.bool b) := by
  cases op with
  | identity op =>
    exact guarded_of_describes options state (run_identity options state op) holds?_of_admits
      hl hr hll hrl h
  | compare op =>
    exact guarded_of_describes options state (run_compare options state op)
      Value.compare?_of_admits hl hr hll hrl h
  | _ => cases hop

-- Null is not above any scalar. Beside most scalars it counts as false, beside a text as the empty
-- text.
theorem comparison_null_lessEq_text :
    (Value.any .scalar).Describes (.str "abc") ∧
      ((binary .null (.compare .lessEq) (.any .scalar)).run {} .initial).1 = .ok (.bool true) ∧
      ((binary .null (.compare .lessEq) (.str "abc")).run {} .initial).1 = .ok (.bool true) ∧
      ((binary .null (.compare .greater) (.any .scalar)).run {} .initial).1 = .ok (.bool false) ∧
      ((binary .null (.compare .greater) (.str "abc")).run {} .initial).1 = .ok (.bool false) := by
  have hscalar : (Value.any .scalar).Describes (.str "abc") := ⟨rfl, by decide⟩
  have hdefinite :
      ((binary .null (.compare .lessEq) (.any .scalar)).run {} .initial).1 = .ok (.bool true) := by
    decide +kernel
  have hnot :
      ((binary .null (.compare .greater) (.any .scalar)).run {} .initial).1 = .ok (.bool false) := by
    decide +kernel
  have hdecided : ∀ {op : BinaryOp} {b}, op.isComparison →
      ((binary .null op (.any .scalar)).run {} .initial).1 = .ok (.bool b) →
      ((binary .null op (.str "abc")).run {} .initial).1 = .ok (.bool b) := fun hop h =>
    comparison_of_describes {} .initial hop (Value.describes_self rfl) hscalar (by decide)
      (by decide) h
  exact ⟨hscalar, hdefinite, hdecided rfl hdefinite, hnot, hdecided rfl hnot⟩

end Eval

end AbsEval
