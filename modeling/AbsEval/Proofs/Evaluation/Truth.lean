import AbsEval.Proofs.Conversion.Unary
import AbsEval.Proofs.Evaluation.Pairwise

namespace AbsEval

namespace Interval

variable {α : Type} [LE α] [DecidableLE α] [Bound α]

-- A range whose truth is open holds zero, and one of its ends is another number.
theorem exists_of_truth?_eq_none (htrans : ∀ {x y z : α}, x ≤ y → y ≤ z → x ≤ z)
    {range : Interval α} (hstart : range.start ≤ range.start) (hstop : range.stop ≤ range.stop)
    (h : range.truth? = none) :
    range.contains Bound.zero ∧ ∃ x, range.contains x ∧ ¬(x ≤ Bound.zero ∧ Bound.zero ≤ x) := by
  unfold truth? at h
  split at h
  · cases h
  · next hz =>
    split at h
    · next hzero =>
      refine ⟨hzero, ?_⟩
      have hpoint : ¬range.stop ≤ range.start := by
        intro hle
        exact hz (by simp [isZero, isPoint, hzero, hle])
      by_cases hx : range.start ≤ Bound.zero ∧ Bound.zero ≤ range.start
      · refine ⟨range.stop, contains_iff.mpr ⟨range.ordered, hstop⟩, fun hy => hpoint ?_⟩
        exact htrans hy.1 hx.2
      · exact ⟨range.start, contains_iff.mpr ⟨hstart, range.ordered⟩, hx⟩
    · cases h

end Interval

namespace Value

variable {store : Store} {v : Value} {family : Family} {kind : Kind}

theorem truth?_zero : (float .zero).truth? store = some false := by
  simp [truth?, Double.isZero, Double.position?_zero]

-- Each scalar family has true and false values. NaN is not zero, so it is true.
theorem exists_truth_of_family (h : family ∈ Family.scalar) (b : Bool) :
    ∃ c : Value, c.isConcrete ∧ c.families = [family] ∧ c.truth? store = some b := by
  cases family with
  | boolean => exact ⟨bool b, rfl, rfl, rfl⟩
  | integer => cases b with
    | false => exact ⟨int 0, rfl, rfl, rfl⟩
    | true => exact ⟨int 1, rfl, rfl, rfl⟩
  | longint => cases b with
    | false => exact ⟨long 0, rfl, rfl, rfl⟩
    | true => exact ⟨long 1, rfl, rfl, rfl⟩
  | float => cases b with
    | false => exact ⟨float .zero, rfl, rfl, truth?_zero⟩
    | true => exact ⟨float .nan, rfl, rfl, rfl⟩
  | string => cases b with
    | false => exact ⟨str "", rfl, rfl, rfl⟩
    | true => exact ⟨str "1", rfl, rfl, rfl⟩
  | _ => simp [Family.scalar] at h

-- A value whose truth is open stands for true and for false values. Of unknown arrays this cannot
-- be said: all that the store has may be empty.
theorem exists_truth?_eq_some (h : v.truth? store = none) (hdata : v.isMarker = false)
    (harray : v ≠ any .array) (hcompound : v ≠ any .compound) (b : Bool) :
    ∃ c, v.Describes c ∧ c.truth? store = some b := by
  cases v with
  | intRange range =>
    obtain ⟨hzero, n, hn, hne⟩ := Interval.exists_of_truth?_eq_none Int32.le_trans
      (Int32.le_refl _) (Int32.le_refl _) h
    cases b with
    | false => exact ⟨int 0, ⟨0, rfl, hzero⟩, rfl⟩
    | true =>
      refine ⟨int n, ⟨n, rfl, hn⟩, congrArg some (decide_eq_true ?_)⟩
      rintro rfl
      exact hne ⟨Int32.le_refl _, Int32.le_refl _⟩
  | longRange range =>
    obtain ⟨hzero, n, hn, hne⟩ := Interval.exists_of_truth?_eq_none Int64.le_trans
      (Int64.le_refl _) (Int64.le_refl _) h
    cases b with
    | false => exact ⟨long 0, ⟨0, rfl, hzero⟩, rfl⟩
    | true =>
      refine ⟨long n, ⟨n, rfl, hn⟩, congrArg some (decide_eq_true ?_)⟩
      rintro rfl
      exact hne ⟨Int64.le_refl _, Int64.le_refl _⟩
  | floatRange range =>
    have hstop : range.stop ≤ range.stop := by
      obtain ⟨_, q, -, hq, -⟩ := Double.le_iff.mp range.ordered
      exact Double.le_iff.mpr ⟨q, q, hq, hq, Int.le_refl q⟩
    obtain ⟨hzero, x, hx, hne⟩ := Interval.exists_of_truth?_eq_none Double.le_trans
      (Double.le_self_of_le range.ordered) hstop h
    rw [show (Bound.zero : Double) = .zero from rfl, ← Double.isZero_iff, Bool.not_eq_true] at hne
    cases b with
    | false => exact ⟨float .zero, ⟨.zero, rfl, hzero⟩, truth?_zero⟩
    | true => exact ⟨float x, ⟨x, rfl, hx⟩, by simp [truth?, hne]⟩
  | any kind =>
    have hscalar : ∃ family ∈ kind.families, family ∈ Family.scalar := by
      cases kind with
      | value | scalar | boolean => exact ⟨.boolean, by decide, by decide⟩
      | integer => exact ⟨.integer, by decide, by decide⟩
      | longint => exact ⟨.longint, by decide, by decide⟩
      | float => exact ⟨.float, by decide, by decide⟩
      | string => exact ⟨.string, by decide, by decide⟩
      | array => exact absurd rfl harray
      | compound => exact absurd rfl hcompound
      | object | resource => cases h
    obtain ⟨family, hfamily, hscalar⟩ := hscalar
    obtain ⟨c, hc, hf, htruth⟩ := exists_truth_of_family hscalar b
    exact ⟨c, describes_any_of_family hc hf hfamily, htruth⟩
  | marker m => cases hdata
  | _ => cases h

-- The truth of a value is definite just if all that it stands for has this truth.
theorem truth?_eq_some_iff (hdata : v.isMarker = false) (harray : v ≠ any .array)
    (hcompound : v ≠ any .compound) {b : Bool} :
    v.truth? store = some b ↔ ∀ c, v.Describes c → c.truth? store = some b := by
  constructor
  · intro h c hc
    exact truth?_of_admits (.inl hc) h
  · intro h
    cases htruth : v.truth? store with
    | none =>
      obtain ⟨c, hc, hnot⟩ := exists_truth?_eq_some htruth hdata harray hcompound (!b)
      rw [h c hc, Option.some.injEq] at hnot
      cases b <;> cases hnot
    | some b' =>
      obtain ⟨c, hc⟩ := exists_describes hdata
      rw [← h c hc, truth?_of_admits (.inl hc) htruth]

theorem toBoolean_of_describes {c : Value} (h : v.Describes c) :
    c.toBoolean store = .ok (c.truth? store) := by
  have hdata := isMarker_of_describes (describes_self (isConcrete_of_describes h))
  rw [toBoolean, whenData, hdata]
  rfl

end Value

namespace Eval

variable (options : Options) (state : State) {e : Entry}

theorem run_entryToBoolean (e : Entry) :
    (entryToBoolean e).run options state = ((e.truth state.store).map .ofTruth?, state) := by
  unfold entryToBoolean
  rw [run_bind_ok options state (run_getStore options state), run_bind_pure, run_ofExcept]

-- The truth of an entry is definite just if all that its values stand for has this truth, and else
-- it is left open.
theorem entryToBoolean_exact
    (he : ∀ v ∈ e.values, v.isMarker = false ∧ v ≠ .any .array ∧ v ≠ .any .compound) :
    ∃ v, (entryToBoolean e).run options state = (.ok v, state) ∧
      (∀ b, v = .bool b ↔ ∀ c, e.Describes c → c.toBoolean state.store = .ok (some b)) ∧
      ((¬∃ b, ∀ c, e.Describes c → c.toBoolean state.store = .ok (some b)) →
        v = .any .boolean) := by
  refine ⟨.ofTruth? (Entry.sharedTruth? (e.values.map (Value.truth? state.store))), ?_,
    Value.ofTruth?_exact fun b => ?_⟩
  · rw [run_entryToBoolean, Entry.truth_data fun v hv => (he v hv).1]
    rfl
  · rw [Entry.sharedTruth?_eq_some_iff (by simp [e.nonempty]), List.forall_mem_map]
    constructor
    · rintro h c ⟨v, hv, hc⟩
      obtain ⟨hdata, harray, hcompound⟩ := he v hv
      rw [Value.toBoolean_of_describes hc,
        (Value.truth?_eq_some_iff hdata harray hcompound).mp (h v hv) c hc]
    · intro h v hv
      obtain ⟨hdata, harray, hcompound⟩ := he v hv
      refine (Value.truth?_eq_some_iff hdata harray hcompound).mpr fun c hc => ?_
      rw [← Except.ok.injEq, ← Value.toBoolean_of_describes hc]
      exact h c ⟨v, hv, hc⟩

def objectOrPositive : Entry := (Entry.single (.any .object)).insert (.intRange oneToFive)

def nullOrObject : Entry := (Entry.single .null).insert (.any .object)

-- An unknown object and a positive number are true, whatever they are. Null is false, so that
-- beside an object the truth is open.
theorem entryToBoolean_exact_objectOrPositive :
    (∀ v ∈ objectOrPositive.values,
        v.isMarker = false ∧ v ≠ .any .array ∧ v ≠ .any .compound) ∧
      (entryToBoolean objectOrPositive).run {} .initial = (.ok (.bool true), .initial) ∧
      (∀ c, objectOrPositive.Describes c → c.toBoolean .empty = .ok (some true)) ∧
      (entryToBoolean (.single .null)).run {} .initial = (.ok (.bool false), .initial) ∧
      (∀ c, (Entry.single .null).Describes c → c.toBoolean .empty = .ok (some false)) ∧
      (entryToBoolean nullOrObject).run {} .initial = (.ok (.any .boolean), .initial) ∧
      ¬∃ b, ∀ c, nullOrObject.Describes c → c.toBoolean .empty = .ok (some b) := by
  have he : ∀ v ∈ objectOrPositive.values,
      v.isMarker = false ∧ v ≠ .any .array ∧ v ≠ .any .compound := by
    decide
  have hrun : (entryToBoolean objectOrPositive).run {} .initial =
      (.ok (.bool true), .initial) := by
    decide
  have hnull : (entryToBoolean (.single .null)).run {} .initial =
      (.ok (.bool false), .initial) := by
    decide
  have hopen : (entryToBoolean nullOrObject).run {} .initial =
      (.ok (.any .boolean), .initial) := by
    decide
  obtain ⟨v, hv, hall, -⟩ := entryToBoolean_exact {} .initial he
  obtain ⟨w, hw, hfalse, -⟩ := entryToBoolean_exact {} .initial (e := .single .null) (by decide)
  obtain ⟨u, hu, hnone, -⟩ := entryToBoolean_exact {} .initial (e := nullOrObject) (by decide)
  obtain rfl : v = .bool true := Except.ok.inj (congrArg Prod.fst (hv.symm.trans hrun))
  obtain rfl : w = .bool false := Except.ok.inj (congrArg Prod.fst (hw.symm.trans hnull))
  obtain rfl : u = .any .boolean := Except.ok.inj (congrArg Prod.fst (hu.symm.trans hopen))
  refine ⟨he, hrun, (hall true).mp rfl, hnull, (hfalse false).mp rfl, hopen, ?_⟩
  rintro ⟨b, hb⟩
  cases (hnone b).mpr hb

end Eval

end AbsEval
