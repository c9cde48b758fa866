import AbsEval.Proofs.Comparison.Definite
import AbsEval.Proofs.Evaluation.Monotone
import AbsEval.Proofs.Evaluation.Singleton

namespace AbsEval

theorem mapM_eq_ok_map {α β : Type} {f : α → Except Fault β} {g : α → β} {xs : List α}
    (h : ∀ x ∈ xs, f x = .ok (g x)) : xs.mapM f = .ok (xs.map g) := by
  induction xs with
  | nil => rfl
  | cons x xs ih =>
    obtain ⟨hx, hxs⟩ := List.forall_mem_cons.mp h
    rw [List.mapM_cons, hx, ih hxs]
    rfl

namespace Entry

-- Each of the truths is at least as definite as the one they share.
theorem refines_sharedTruth? {truths : List (Option Bool)} {truth : Option Bool}
    (h : truth ∈ truths) : Refines truth (sharedTruth? truths) := fun _ hb =>
  (sharedTruth?_eq_some_iff (List.ne_nil_of_mem h)).mp hb truth h

theorem truth_data {store : Store} {e : Entry} (h : ∀ v ∈ e.values, v.isMarker = false) :
    e.truth store = .ok (sharedTruth? (e.values.map (Value.truth? store))) := by
  rw [truth, mapM_eq_ok_map fun v hv => Value.operandTruth_eq (h v hv)]
  rfl

end Entry

namespace LogicOp

open Entry (sharedTruth? sharedTruth?_eq_some_iff refines_sharedTruth?)

variable {op : LogicOp} {l l' r : Option Bool} {ls rs : List (Option Bool)} {b : Bool}

-- Whether the right operand is looked at makes no difference once it has a truth.
theorem evaluate_ok_ok (l r : Option Bool) :
    op.evaluate (.ok l) (.ok r) = .ok (op.combine l r) := by
  rw [evaluate_ok]
  split
  · next h => rw [combine_of_settledBy h]
  · rfl

-- Beside an operand that does not settle the result, the result tells what the other one is.

theorem exists_known (hr : ¬op.settledBy r) (h : op.combine l r = some b) : ∃ x, l = some x := by
  rcases settled_or_known h with ⟨-, hl⟩ | ⟨hsettled, -⟩ | ⟨hl, -⟩
  · exact ⟨b, hl⟩
  · exact absurd hsettled hr
  · exact hl

theorem eq_of_combine_eq (hr : ¬op.settledBy r) (h : op.combine l r = some b)
    (h' : op.combine l' r = some b) : l = l' := by
  obtain ⟨x, rfl⟩ := exists_known hr h
  obtain ⟨x', rfl⟩ := exists_known hr h'
  have hsame := h.trans h'.symm
  rcases op with _ | _ | _ <;> rcases r with _ | _ | _ <;> cases x <;> cases x' <;>
    first | rfl | exact absurd hsame (by decide) | exact absurd (by decide) hr | cases h

theorem exists_sharedTruth? (hne : ls ≠ []) (hr : ¬op.settledBy r)
    (h : ∀ l ∈ ls, op.combine l r = some b) : ∃ x, sharedTruth? ls = some x ∧ some x ∈ ls := by
  obtain ⟨l, hl⟩ := List.exists_mem_of_ne_nil ls hne
  obtain ⟨x, rfl⟩ := exists_known hr (h l hl)
  refine ⟨x, (sharedTruth?_eq_some_iff hne).mpr fun l' hl' => ?_, hl⟩
  exact eq_of_combine_eq hr (h l' hl') (h _ hl)

-- The truths that two entries share combine to a definite one just if all pairs combine to it.
theorem combine_sharedTruth?_eq_some_iff (hl : ls ≠ []) (hr : rs ≠ []) :
    op.combine (sharedTruth? ls) (sharedTruth? rs) = some b ↔
      ∀ l ∈ ls, ∀ r ∈ rs, op.combine l r = some b := by
  constructor
  · intro h l hmem r hmem'
    exact combine_refines (refines_sharedTruth? hmem) (refines_sharedTruth? hmem') b h
  · intro h
    by_cases hsettled : ∀ r ∈ rs, op.settledBy r
    · -- Each truth on the right is the result.
      obtain ⟨l, hmem⟩ := List.exists_mem_of_ne_nil ls hl
      have hall : ∀ r ∈ rs, r = some b := by
        intro r hmem'
        rw [← h l hmem r hmem', combine_comm, combine_of_settledBy (hsettled r hmem')]
      obtain ⟨r, hmem'⟩ := List.exists_mem_of_ne_nil rs hr
      have hb := hsettled r hmem'
      rw [hall r hmem'] at hb
      rw [(sharedTruth?_eq_some_iff hr).mpr hall, combine_comm, combine_of_settledBy hb]
    · -- The truths on the left are all the same, and so are those on the right if they matter.
      push Not at hsettled
      obtain ⟨r, hmem', hopen⟩ := hsettled
      obtain ⟨x, hleft, hx⟩ := exists_sharedTruth? hl hopen fun l hmem => h l hmem r hmem'
      rw [hleft]
      by_cases hsettled : op.settledBy (some x)
      · rw [combine_of_settledBy hsettled, ← h _ hx r hmem', combine_of_settledBy hsettled]
      · obtain ⟨y, hright, hy⟩ := exists_sharedTruth? hr hsettled fun r hmem' => by
          rw [combine_comm]
          exact h _ hx r hmem'
        rw [hright]
        exact h _ hx _ hy

end LogicOp

namespace Eval

variable (options : Options) (state : State) {left right : Entry}

theorem run_binary_logic_data (op : LogicOp) {l r : Value} (hl : l.isMarker = false)
    (hr : r.isMarker = false) :
    (binary l (.logic op) r).run options state =
      (.ok (.ofTruth? (op.combine (l.truth? state.store) (r.truth? state.store))), state) := by
  rw [run_binary_logic options state op (Value.isForeign_of_not_isMarker hl)
    (Value.isForeign_of_not_isMarker hr), LogicOp.ofValues, Value.operandTruth_eq hl,
    Value.operandTruth_eq hr, LogicOp.evaluate_ok_ok]
  rfl

-- The truth of a logical operator on entries, which looks at whole entries and maybe at the left
-- one only, and the truths on all pairs of their values.
theorem exists_run_logicEntry (op : LogicOp) (hl : ∀ l ∈ left.values, l.isMarker = false)
    (hr : ∀ r ∈ right.values, r.isMarker = false) :
    ∃ truth, (logicEntry op left right).run options state = (.ok (.ofTruth? truth), state) ∧
      ∀ b, truth = some b ↔ ∀ l ∈ left.values, ∀ r ∈ right.values,
        (binary l (.logic op) r).run options state = (.ok (.bool b), state) := by
  refine ⟨op.combine (Entry.sharedTruth? (left.values.map (Value.truth? state.store)))
    (Entry.sharedTruth? (right.values.map (Value.truth? state.store))), ?_, fun b => ?_⟩
  · rw [run_logicEntry, LogicOp.ofEntries, Entry.truth_data hl, Entry.truth_data hr,
      LogicOp.evaluate_ok_ok]
    rfl
  · rw [LogicOp.combine_sharedTruth?_eq_some_iff (by simp [left.nonempty])
      (by simp [right.nonempty])]
    simp only [List.forall_mem_map]
    refine forall₂_congr fun l hmem => forall₂_congr fun r hmem' => ?_
    rw [run_binary_logic_data options state op (hl l hmem) (hr r hmem')]
    simp [Value.ofTruth?_eq_bool]

-- A logical operator on entries answers with a truth just if it answers with this truth on all
-- pairs of their values, and else leaves it open.
theorem logicEntry_exact (op : LogicOp) (hl : ∀ l ∈ left.values, l.isMarker = false)
    (hr : ∀ r ∈ right.values, r.isMarker = false) :
    ∃ v, (logicEntry op left right).run options state = (.ok v, state) ∧
      (∀ b, v = .bool b ↔ ∀ l ∈ left.values, ∀ r ∈ right.values,
        (binary l (.logic op) r).run options state = (.ok (.bool b), state)) ∧
      ((¬∃ b, ∀ l ∈ left.values, ∀ r ∈ right.values,
        (binary l (.logic op) r).run options state = (.ok (.bool b), state)) →
          v = .any .boolean) := by
  obtain ⟨truth, hrun, htruth⟩ := exists_run_logicEntry options state op hl hr
  exact ⟨_, hrun, Value.ofTruth?_exact htruth⟩

def oneToFive : Interval Int32 := ⟨1, 5, by decide⟩

-- The left entry is open as a whole, and the right one is true whatever it is.
theorem logicEntry_exact_either :
    (∀ l ∈ either.values, l.isMarker = false) ∧
      (∀ r ∈ (Entry.single (.intRange oneToFive)).values, r.isMarker = false) ∧
      ((entryToBoolean either).run {} .initial).1 = .ok (.any .boolean) ∧
      (logicEntry .or either (.single (.intRange oneToFive))).run {} .initial =
        (.ok (.bool true), .initial) ∧
      ∀ l ∈ either.values, ∀ r ∈ (Entry.single (.intRange oneToFive)).values,
        (binary l (.logic .or) r).run {} .initial = (.ok (.bool true), .initial) := by
  have hl : ∀ l ∈ either.values, l.isMarker = false := by decide
  have hr : ∀ r ∈ (Entry.single (.intRange oneToFive)).values, r.isMarker = false := by decide
  have hrun : (logicEntry .or either (.single (.intRange oneToFive))).run {} .initial =
      (.ok (.bool true), .initial) := by
    decide
  obtain ⟨v, hv, hpairs, -⟩ := logicEntry_exact {} .initial .or hl hr
  obtain rfl : v = .bool true := Except.ok.inj (congrArg Prod.fst (hv.symm.trans hrun))
  exact ⟨hl, hr, by decide, hrun, (hpairs true).mp rfl⟩

end Eval

end AbsEval
