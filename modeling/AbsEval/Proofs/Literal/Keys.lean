import AbsEval.ArrayLiteral
import AbsEval.Proofs.Evaluation
import AbsEval.Proofs.Index.Class

namespace AbsEval

-- The same state with more warnings.
def State.reporting (state : State) (reports : List Warning) : State :=
  { state with warnings := state.warnings ++ reports }

@[simp] theorem State.reporting_nil (state : State) : state.reporting [] = state := by
  simp [reporting]

theorem State.reporting_append (state : State) (reports reports' : List Warning) :
    state.reporting (reports ++ reports') = (state.reporting reports).reporting reports' := by
  simp [reporting]

-- One warning for each illegal value.
def illegalReports (options : Options) (illegal : Warning) (vs : List Value) : List Warning :=
  List.replicate (vs.countP fun v => Candidate.ofValue options v = .illegal) illegal

theorem illegalReports_cons (options : Options) (illegal : Warning) (v : Value) (vs : List Value) :
    illegalReports options illegal (v :: vs) =
      illegalReports options illegal [v] ++ illegalReports options illegal vs := by
  simp only [illegalReports, List.countP_cons, List.countP_nil, Nat.zero_add]
  rw [Nat.add_comm, List.replicate_add]

-- The selectors of the items of a literal without evaluation.
def itemSelectors (options : Options) (counter : Counter) : List (Option Entry) → List Selector
  | [] => []
  | some key :: items =>
    (IndexClass.ofEntry options key).selector ::
      itemSelectors options (counter.afterKey (.ofEntry options key)) items
  | none :: items => counter.selector :: itemSelectors options counter.afterItem items

-- The warnings about each of the items.
def itemReports (options : Options) (counter : Counter) : List (Option Entry) → List (List Warning)
  | [] => []
  | some key :: items =>
    illegalReports options .illegalOffsetInLiteral key.values ::
      itemReports options (counter.afterKey (.ofEntry options key)) items
  | none :: items =>
    (if counter = some [] then [.illegalOffsetInLiteral] else []) ::
      itemReports options counter.afterItem items

-- No key is a marker.
def DataKeys (items : List (Option Entry)) : Prop :=
  ∀ key, some key ∈ items → ∀ v ∈ key.values, v.isMarker = false

theorem dataKeys_some_cons {key : Entry} {items : List (Option Entry)} :
    DataKeys (some key :: items) ↔ (∀ v ∈ key.values, v.isMarker = false) ∧ DataKeys items := by
  simp only [DataKeys, List.mem_cons, Option.some.injEq]
  constructor
  · intro h
    exact ⟨h key (.inl rfl), fun key' hkey' => h key' (.inr hkey')⟩
  · rintro ⟨hkey, hitems⟩ key' (rfl | hkey')
    · exact hkey
    · exact hitems key' hkey'

theorem dataKeys_none_cons {items : List (Option Entry)} :
    DataKeys (none :: items) ↔ DataKeys items := by
  simp [DataKeys]

namespace Eval

variable {options : Options} {state last : State} {illegal : Warning} {vs : List Value}
  {key : Entry} {counter : Counter} {items : List (Option Entry)}

-- Evaluation of data gives these and changes nothing but the warnings.

theorem run_candidate {v : Value} (h : v.isMarker = false) :
    (candidate illegal v).run options state =
      (.ok (.ofValue options v), state.reporting (illegalReports options illegal [v])) := by
  unfold candidate
  rw [run_bind_ok options state (run_expectData options state h),
    run_bind_ok options state (run_read options state)]
  dsimp only
  split
  · next hc =>
    rw [run_bind_ok options state (run_warn options state illegal)]
    simp [illegalReports, hc, State.reporting]
  · next hc => simp [illegalReports, hc]

theorem run_mapM_candidate (h : ∀ v ∈ vs, v.isMarker = false) :
    (vs.mapM (candidate illegal)).run options state =
      (.ok (vs.map (Candidate.ofValue options)),
        state.reporting (illegalReports options illegal vs)) := by
  induction vs generalizing state with
  | nil => simp [illegalReports]
  | cons v vs ih =>
    obtain ⟨hv, hvs⟩ := List.forall_mem_cons.mp h
    rw [List.mapM_cons, run_bind_ok options state (run_candidate hv),
      run_bind_ok options _ (ih hvs), run_pure, illegalReports_cons options illegal v vs,
      State.reporting_append, List.map_cons]

theorem run_classify (h : ∀ v ∈ key.values, v.isMarker = false) :
    (classify illegal key).run options state =
      (.ok (.ofEntry options key),
        state.reporting (illegalReports options illegal key.values)) := by
  unfold classify
  rw [run_bind_ok options state (run_mapM_candidate h)]
  rfl

theorem run_itemKeys (h : DataKeys items) :
    (itemKeys counter items).run options state =
      (.ok (itemSelectors options counter items),
        state.reporting (itemReports options counter items).flatten) := by
  induction items generalizing state counter with
  | nil => simp [itemKeys, itemSelectors, itemReports]
  | cons item items ih =>
    cases item with
    | some key =>
      obtain ⟨hkey, hitems⟩ := dataKeys_some_cons.mp h
      unfold itemKeys
      rw [run_bind_ok options state (run_classify hkey), run_bind_ok options _ (ih hitems),
        itemReports, List.flatten_cons, State.reporting_append]
      rfl
    | none =>
      have hitems := dataKeys_none_cons.mp h
      unfold itemKeys
      rw [itemReports, List.flatten_cons, State.reporting_append]
      dsimp only
      split
      · rw [run_bind_ok options state (run_warn options state _), run_bind_ok options _ (ih hitems)]
        rfl
      · rw [run_bind_ok options state (ih hitems), State.reporting_nil]
        rfl

-- A marker is refused.

theorem isMarker_of_run_mapM_candidate {cs : List Candidate}
    (h : (vs.mapM (candidate illegal)).run options state = (.ok cs, last)) :
    ∀ v ∈ vs, v.isMarker = false := by
  induction vs generalizing state last cs with
  | nil => simp
  | cons v vs ih =>
    rw [List.mapM_cons] at h
    obtain ⟨c, next, hc, h⟩ := run_bind_eq_ok options state h
    obtain ⟨rest, next', hrest, -⟩ := run_bind_eq_ok options next h
    refine List.forall_mem_cons.mpr ⟨?_, ih hrest⟩
    rw [Bool.eq_false_iff]
    intro hmarker
    unfold candidate at hc
    rw [run_bind_error options state (run_expectData_marker options state hmarker)] at hc
    cases hc

theorem dataKeys_of_run_itemKeys {selectors : List Selector}
    (h : (itemKeys counter items).run options state = (.ok selectors, last)) : DataKeys items := by
  induction items generalizing state last counter selectors with
  | nil => simp [DataKeys]
  | cons item items ih =>
    cases item with
    | some key =>
      obtain ⟨c, next, hc, h⟩ := run_bind_eq_ok options state h
      obtain ⟨rest, next', hrest, -⟩ := run_bind_eq_ok options next h
      obtain ⟨cs, next, hcs, -⟩ := run_bind_eq_ok options state hc
      exact dataKeys_some_cons.mpr ⟨isMarker_of_run_mapM_candidate hcs, ih hrest⟩
    | none =>
      unfold itemKeys at h
      dsimp only at h
      rw [dataKeys_none_cons]
      split at h
      · rw [run_bind_ok options state (run_warn options state _)] at h
        obtain ⟨rest, next, hrest, -⟩ := run_bind_eq_ok options _ h
        exact ih hrest
      · obtain ⟨rest, next, hrest, -⟩ := run_bind_eq_ok options state h
        exact ih hrest

theorem run_literalKeys_eq_ok {selectors : List Selector}
    (h : (literalKeys items).run options state = (.ok selectors, last)) :
    DataKeys items ∧ selectors = itemSelectors options .initial items ∧
      last = state.reporting (itemReports options .initial items).flatten := by
  have hdata := dataKeys_of_run_itemKeys h
  rw [literalKeys, run_itemKeys hdata] at h
  cases h
  exact ⟨hdata, rfl, rfl⟩

theorem run_arrayLiteral {items : List (Option Entry × Entry)} {array : Value}
    (h : (arrayLiteral items).run options state = (.ok array, last)) :
    ((literalKeys (items.map Prod.fst)).run options state).1 =
        .ok (itemSelectors options .initial (items.map Prod.fst)) ∧
      array = .array state.store.nextArray ∧
      last.store = state.store.newArray.2.writeItems array
        ((itemSelectors options .initial (items.map Prod.fst)).zip (items.map Prod.snd)) := by
  obtain ⟨selectors, next, hkeys, h⟩ := run_bind_eq_ok options state h
  obtain ⟨-, rfl, rfl⟩ := run_literalKeys_eq_ok hkeys
  rw [run_update] at h
  cases h
  rw [hkeys]
  exact ⟨rfl, rfl, rfl⟩

-- Only the keys decide whether there is an array, and which.
theorem exists_run_arrayLiteral {items items' : List (Option Entry × Entry)} {array : Value}
    (h : (arrayLiteral items).run options state = (.ok array, last))
    (hkeys : items'.map Prod.fst = items.map Prod.fst) :
    ∃ last', (arrayLiteral items').run options state = (.ok array, last') := by
  obtain ⟨selectors, next, hrun, h⟩ := run_bind_eq_ok options state h
  rw [run_update] at h
  cases h
  unfold arrayLiteral
  rw [hkeys, run_bind_ok options state hrun, run_update]
  exact ⟨_, rfl⟩

end Eval

end AbsEval
