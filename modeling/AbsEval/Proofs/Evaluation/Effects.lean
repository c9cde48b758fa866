import AbsEval.Proofs.Evaluation.Observation
import AbsEval.Proofs.Store.Growth

namespace AbsEval.Eval

variable {α β : Type} {given : Path → Prop}

-- At most one container is made, and no other is written to. What goes into it is found at given
-- paths.
def Builds (given : Path → Prop) (x : Eval α) : Prop :=
  ∀ (options : Options) (state : State), state.store.Grows given (x.run options state).2.store

theorem builds_of_observes {x : Eval α} (h : ∀ options, Observes options x) : x.Builds given := by
  intro options state
  rw [(h options).store_eq state]
  exact .same

-- After a part that leaves the store alone, the next part decides what becomes of it.
theorem Builds.bind {x : Eval α} {f : α → Eval β} (hx : ∀ options, Observes options x)
    (hf : ∀ a, (f a).Builds given) : (x >>= f).Builds given := by
  intro options state
  have hstore := (hx options).store_eq state
  rcases hrun : x.run options state with ⟨fault | a, next⟩
  · rw [hrun] at hstore
    rw [run_bind_error options state hrun, hstore]
    exact .same
  · rw [hrun] at hstore
    rw [run_bind_ok options state hrun, ← hstore]
    exact hf a options next

theorem builds_update {f : Store → α × Store} (h : ∀ store : Store, store.Grows given (f store).2) :
    (update f).Builds given :=
  fun _ state => h state.store

theorem builds_toObject {v : Value} (hv : ∀ steps, given ⟨.single v, steps⟩) :
    (toObject v).Builds given :=
  .bind (fun _ => observes_expectData v) fun _ => builds_update fun _ => Store.grows_toObject hv

theorem builds_toArray {v : Value} (hv : ∀ steps, given ⟨.single v, steps⟩) :
    (toArray v).Builds given :=
  .bind (fun _ => observes_expectData v) fun _ => builds_update fun _ => Store.grows_toArray hv

theorem builds_clone {v : Value} (hv : ∀ steps, given ⟨.single v, steps⟩) :
    (clone v).Builds given := by
  unfold clone
  split
  · exact builds_update fun _ => Store.grows_cloneObject hv
  · exact builds_of_observes fun _ => observes_pure _
  · exact builds_of_observes fun _ => observes_note _

theorem builds_unary (op : UnaryOp) {v : Value}
    (hv : ∀ steps, given ⟨.single v.normalized, steps⟩) : (unary op v).Builds given := by
  by_cases hop : op.makesContainer
  · refine .bind (fun _ => observes_expectData _) fun _ => ?_
    rcases UnaryOp.makesContainer_iff.mp hop with rfl | rfl | rfl
    · exact builds_toObject hv
    · exact builds_toArray hv
    · exact builds_clone hv
  · exact builds_of_observes fun _ => observes_unary (by simpa using hop) v

theorem builds_arithmetic (op : ArithmeticOp) {left right : Value}
    (hleft : ∀ steps, given ⟨.single left, steps⟩)
    (hright : ∀ steps, given ⟨.single right, steps⟩) : (arithmetic op left right).Builds given := by
  unfold arithmetic
  split
  · refine .bind (fun _ => observes_read) fun options => ?_
    split
    · exact builds_update fun _ => Store.grows_unionArrays hleft hright
    · exact builds_of_observes fun _ => observes_note _
  · exact builds_of_observes fun _ => observes_note _

theorem builds_binary (op : BinaryOp) {left right : Value}
    (hleft : ∀ steps, given ⟨.single left.normalized, steps⟩)
    (hright : ∀ steps, given ⟨.single right.normalized, steps⟩) :
    (binary left op right).Builds given := by
  by_cases hop : op = .arithmetic .add
  · subst hop
    exact .bind (fun _ => observes_rejectForeign _) fun _ =>
      .bind (fun _ => observes_rejectForeign _) fun _ =>
        .bind (fun _ => observes_expectOperands _ _) fun _ => builds_arithmetic .add hleft hright
  · exact builds_of_observes fun _ => observes_binary fun h => hop h.1

theorem builds_arrayLiteral {items : List (Option Entry × Entry)}
    (hitems : ∀ item ∈ items, given (.ofEntry item.2)) : (arrayLiteral items).Builds given := by
  refine .bind (fun _ => observes_itemKeys _ _) fun keys => builds_update fun store => ?_
  refine .make rfl (Store.fills_writeItems fun item hitem => ?_)
  obtain ⟨item', hitem', heq⟩ := List.mem_map.mp (List.of_mem_zip hitem).2
  exact heq ▸ hitems item' hitem'

end AbsEval.Eval
