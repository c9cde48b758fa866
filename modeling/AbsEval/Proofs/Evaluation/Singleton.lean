import AbsEval.Proofs.Evaluation
import AbsEval.Proofs.Store.Lookup
import AbsEval.Proofs.Value.Admits

namespace AbsEval

-- The truth and the texts of an entry of one value are those of the value.

theorem Entry.truth_single (store : Store) (v : Value) :
    (Entry.single v).truth store = v.operandTruth store := by
  have hshared : ∀ truth : Option Bool, Entry.sharedTruth? [truth] = truth := by
    rintro (_ | _ | _) <;> rfl
  unfold Entry.truth
  rw [Entry.values_single, List.mapM_cons, List.mapM_nil]
  cases v.operandTruth store with
  | error fault => rfl
  | ok truth => exact congrArg Except.ok (hshared truth)

theorem Texts.ofEntry_single (v : Value) :
    Texts.ofEntry (.single v) = v.toText.map fun text => Texts.ofList [text] := by
  unfold Texts.ofEntry
  rw [Entry.values_single, List.mapM_cons, List.mapM_nil]
  cases v.toText <;> rfl

theorem Texts.toValues_append_singleton (l r : Option String) :
    ((Texts.ofList [l]).append (Texts.ofList [r])).toValues =
      [.ofText? (do pure ((← l) ++ (← r)))] := by
  cases l <;> cases r <;> rfl

namespace Interval

variable {α : Type} [LE α] [DecidableLE α] {range : Interval α}

theorem contains_start (htrans : ∀ {x y z : α}, x ≤ y → y ≤ z → x ≤ z) (h : range.isPoint) :
    range.contains range.start := by
  rw [isPoint, decide_eq_true_eq] at h
  exact contains_iff.mpr ⟨htrans range.ordered h, range.ordered⟩

theorem exists_truth? [Bound α] (h : range.isPoint) : ∃ b, range.truth? = some b := by
  unfold truth? isZero
  rw [h]
  cases range.containsZero
  · exact ⟨true, rfl⟩
  · exact ⟨false, rfl⟩

end Interval

namespace Value

-- Only ranges of one point are replaced. They have a truth, and no text.
theorem normalized_cases (store : Store) (v : Value) :
    v.normalized = v ∨
      v.Describes v.normalized ∧ v.text? = none ∧ ∃ b, v.truth? store = some b := by
  cases v with
  | intRange range =>
    simp only [normalized]
    split
    · next h =>
      exact .inr ⟨⟨_, rfl, Interval.contains_start Int32.le_trans h⟩, rfl, Interval.exists_truth? h⟩
    · exact .inl rfl
  | longRange range =>
    simp only [normalized]
    split
    · next h =>
      exact .inr ⟨⟨_, rfl, Interval.contains_start Int64.le_trans h⟩, rfl, Interval.exists_truth? h⟩
    · exact .inl rfl
  | floatRange range =>
    simp only [normalized]
    split
    · next h =>
      exact .inr
        ⟨⟨_, rfl, Interval.contains_start Double.le_trans h⟩, rfl, Interval.exists_truth? h⟩
    · exact .inl rfl
  | _ => exact .inl rfl

theorem truth?_normalized (store : Store) (v : Value) :
    v.normalized.truth? store = v.truth? store := by
  rcases v.normalized_cases store with h | ⟨h, -, b, hb⟩
  · rw [h]
  · rw [hb, truth?_of_admits (.inl h) hb]

@[simp] theorem isForeign_normalized (v : Value) : v.normalized.isForeign = v.isForeign := by
  cases v <;> simp only [normalized] <;> try rfl
  all_goals split <;> rfl

theorem isMarker_of_isForeign {v : Value} (h : v.isForeign) : v.isMarker := by
  cases v <;> first | rfl | cases h

theorem operandTruth_eq {store : Store} {v : Value} (h : v.isMarker = false) :
    v.operandTruth store = .ok (v.truth? store) := by
  cases v <;> first | rfl | cases h

theorem operandTruth_error {store : Store} {v : Value} (h : v.isMarker) :
    ∃ fault, v.operandTruth store = .error fault := by
  cases v with
  | marker m => cases m <;> exact ⟨_, rfl⟩
  | _ => cases h

theorem operandTruth_normalized (store : Store) (v : Value) :
    v.normalized.operandTruth store = v.operandTruth store := by
  by_cases h : v.isMarker
  · cases v with
    | marker m => rfl
    | _ => cases h
  · rw [Bool.not_eq_true] at h
    rw [operandTruth_eq h, operandTruth_eq ((isMarker_normalized v).trans h), truth?_normalized]

end Value

namespace Eval

variable (options : Options) (state : State) (l r : Value)

theorem run_binaryEntry_logic (op : LogicOp) :
    (binaryEntry (.single l) (.logic op) (.single r)).run options state =
      ((op.ofValues state.store l r).map fun truth => .single (.ofTruth? truth), state) := by
  rw [run_binaryEntry_logicEntry, LogicOp.ofEntries, Entry.truth_single, Entry.truth_single]
  rfl

theorem run_binaryEntry_concat :
    (binaryEntry (.single l) .concat (.single r)).run options state =
      ((l.concat r).map .single, state) := by
  show (concatEntry (.single l) (.single r)).run options state = _
  unfold concatEntry Value.concat
  rw [Texts.ofEntry_single, Texts.ofEntry_single]
  cases l.toText with
  | error fault => rfl
  | ok a =>
    cases r.toText with
    | error fault => rfl
    | ok b =>
      show (collect ((Texts.ofList [a]).append (Texts.ofList [b])).toValues).run options state = _
      rw [Texts.toValues_append_singleton]
      rfl

theorem run_binaryEntry_pairs {op : BinaryOp} (hconcat : op ≠ .concat)
    (hlogic : ∀ logic, op ≠ .logic logic) :
    (binaryEntry (.single l) op (.single r)).run options state =
      (((binary l op r).run options state).1.map .single,
        ((binary l op r).run options state).2) := by
  have hpairs : binaryEntry (.single l) op (.single r) =
      ([(l, r)].mapM (fun pair => binary pair.1 op pair.2) >>= collect) :=
    binaryEntry_pairs hconcat hlogic (.single l) (.single r)
  rw [hpairs, List.mapM_cons, List.mapM_nil]
  rcases hrun : (binary l op r).run options state with ⟨fault | v, next⟩
  · exact run_bind_error options state (run_bind_error options state hrun)
  · have hresults : (binary l op r >>= fun v => pure [] >>= fun vs => pure (v :: vs)).run
        options state = (.ok [v], next) :=
      run_bind_ok options state hrun
    exact run_bind_ok options state hresults

variable {l r}

theorem run_binary_foreign (op : BinaryOp) (h : l.isForeign ∨ r.isForeign) :
    ∃ kindName, (binary l op r).run options state =
      (.error (.notAnExpression kindName), state) := by
  rw [← Value.isForeign_normalized l, ← Value.isForeign_normalized r] at h
  unfold binary
  by_cases hl : l.normalized.isForeign
  · exact ⟨_, run_bind_error options state (run_rejectForeign_fail options state hl)⟩
  · rw [run_bind_ok options state (run_rejectForeign_pass options state (by simpa using hl))]
    exact ⟨_, run_bind_error options state
      (run_rejectForeign_fail options state (h.resolve_left hl))⟩

theorem run_binary_logic (op : LogicOp) (hl : l.isForeign = false) (hr : r.isForeign = false) :
    (binary l (.logic op) r).run options state =
      ((op.ofValues state.store l r).map .ofTruth?, state) := by
  have hvalues : op.ofValues state.store l.normalized r.normalized =
      op.ofValues state.store l r := by
    simp only [LogicOp.ofValues, Value.operandTruth_normalized]
  unfold binary
  rw [run_bind_ok options state (run_rejectForeign_pass options state (by simpa using hl)),
    run_bind_ok options state (run_rejectForeign_pass options state (by simpa using hr))]
  unfold logic
  rw [run_bind_ok options state (run_getStore options state), run_bind_pure, run_ofExcept, hvalues]

theorem run_binary_concat (hl : l.isForeign = false) (hr : r.isForeign = false) :
    (binary l .concat r).run options state = (l.normalized.concat r.normalized, state) := by
  unfold binary
  rw [run_bind_ok options state (run_rejectForeign_pass options state (by simpa using hl)),
    run_bind_ok options state (run_rejectForeign_pass options state (by simpa using hr))]
  exact run_ofExcept options state _

-- The left operand settles the result, so the entry form never gets to a right operand that the
-- value form rejects.
def LooksPast (store : Store) (l : Value) (op : BinaryOp) (r : Value) : Prop :=
  ∃ logic, op = .logic logic ∧ l.isMarker = false ∧ logic.settledBy (l.truth? store) ∧ r.isForeign

-- A range of one point has a text in the value form only.
def LosesText (l : Value) (op : BinaryOp) (r : Value) : Prop :=
  op = .concat ∧ (l.normalized ≠ l ∨ r.normalized ≠ r) ∧ l.normalized.text?.isSome ∧
    r.normalized.text?.isSome

-- Data on the left has a truth, and the right operand is looked at only if that does not settle the
-- result.
theorem ofValues_data {store : Store} {op : LogicOp} (hl : l.isMarker = false) :
    op.ofValues store l r =
      if op.settledBy (l.truth? store) then .ok (l.truth? store)
      else (r.operandTruth store).map (op.combine (l.truth? store)) := by
  rw [LogicOp.ofValues, Value.operandTruth_eq hl, LogicOp.evaluate_ok]

theorem run_of_looksPast {op : BinaryOp} (h : LooksPast state.store l op r) :
    (binaryEntry (.single l) op (.single r)).run options state =
        (.ok (.single (.ofTruth? (l.truth? state.store))), state) ∧
      ∃ fault, (binary l op r).run options state = (.error fault, state) := by
  obtain ⟨logic, rfl, hl, hsettled, hr⟩ := h
  have hvalues : logic.ofValues state.store l r = .ok (l.truth? state.store) := by
    rw [ofValues_data hl, if_pos hsettled]
  obtain ⟨kindName, hvalue⟩ := run_binary_foreign options state (.logic logic) (.inr hr)
  rw [run_binaryEntry_logic, hvalues]
  exact ⟨rfl, _, hvalue⟩

-- Otherwise the entry form fails on what the value form rejects, though maybe later.
theorem ofValues_foreign {store : Store} {op : LogicOp} (h : l.isForeign ∨ r.isForeign)
    (hpast : ¬LooksPast store l (.logic op) r) :
    ∃ fault, op.ofValues store l r = .error fault := by
  by_cases hl : l.isMarker
  · obtain ⟨fault, hfault⟩ := Value.operandTruth_error hl
    unfold LogicOp.ofValues LogicOp.evaluate
    rw [hfault]
    exact ⟨fault, rfl⟩
  · rw [Bool.not_eq_true] at hl
    have hr : r.isForeign := h.resolve_left (by simp [Value.isForeign_of_not_isMarker hl])
    have hsettled : ¬op.settledBy (l.truth? store) := fun hs => hpast ⟨op, rfl, hl, hs, hr⟩
    obtain ⟨fault, hfault⟩ := Value.operandTruth_error (Value.isMarker_of_isForeign hr)
    rw [ofValues_data hl, if_neg hsettled, hfault]
    exact ⟨fault, rfl⟩

theorem concat_eq {a b : Value} (ha : a.isMarker = false) (hb : b.isMarker = false) :
    a.concat b = .ok (.ofText? (do pure ((← a.text?) ++ (← b.text?)))) := by
  simp only [Value.concat, Value.toText, Value.whenData, ha, hb]
  rfl

theorem concat_error {a b : Value} (h : a.isMarker ∨ b.isMarker) :
    ∃ kindName, a.concat b = .error (.notAnExpression kindName) := by
  unfold Value.concat Value.toText Value.whenData
  by_cases ha : a.isMarker
  · simp only [ha]
    exact ⟨_, rfl⟩
  · simp only [ha, h.resolve_left ha]
    exact ⟨_, rfl⟩

theorem run_binary_concat_marker (h : l.isMarker ∨ r.isMarker) :
    ∃ kindName, (binary l .concat r).run options state =
      (.error (.notAnExpression kindName), state) := by
  by_cases hforeign : l.isForeign ∨ r.isForeign
  · exact run_binary_foreign options state .concat hforeign
  · simp only [not_or, Bool.not_eq_true] at hforeign
    obtain ⟨kindName, hconcat⟩ := concat_error (a := l.normalized) (b := r.normalized)
      (by simpa using h)
    rw [run_binary_concat options state hforeign.1 hforeign.2, hconcat]
    exact ⟨kindName, rfl⟩

-- On data the value form puts the texts of the points together.
theorem run_binary_concat_data (hl : l.isMarker = false) (hr : r.isMarker = false) :
    (binary l .concat r).run options state =
      (.ok (.ofText? (do pure ((← l.normalized.text?) ++ (← r.normalized.text?)))), state) := by
  rw [run_binary_concat options state (Value.isForeign_of_not_isMarker hl)
    (Value.isForeign_of_not_isMarker hr), concat_eq (by simpa using hl) (by simpa using hr)]

theorem isMarker_of_text? {v : Value} (h : v.normalized.text?.isSome) : v.isMarker = false := by
  cases v <;> first | rfl | cases h

theorem run_of_losesText {op : BinaryOp} (h : LosesText l op r) :
    (∃ e, (binaryEntry (.single l) op (.single r)).run options state = (.ok e, state)) ∧
      ∃ v, (binary l op r).run options state = (.ok v, state) := by
  obtain ⟨rfl, -, hl, hr⟩ := h
  have hl' := isMarker_of_text? hl
  have hr' := isMarker_of_text? hr
  rw [run_binaryEntry_concat, concat_eq hl' hr', run_binary_concat_data options state hl' hr']
  exact ⟨⟨_, rfl⟩, _, rfl⟩

-- A range of one point has no text, so nothing is lost where the result has none anyway.
theorem ofText?_normalized (h : ¬LosesText l .concat r) :
    Value.ofText? (do pure ((← l.normalized.text?) ++ (← r.normalized.text?))) =
      .ofText? (do pure ((← l.text?) ++ (← r.text?))) := by
  by_cases hsame : l.normalized = l ∧ r.normalized = r
  · rw [hsame.1, hsame.2]
  · have hnone : l.text? = none ∨ r.text? = none := by
      rcases l.normalized_cases .empty with hl | ⟨-, hl, -⟩
      · rcases r.normalized_cases .empty with hr | ⟨-, hr, -⟩
        · exact absurd ⟨hl, hr⟩ hsame
        · exact .inr hr
      · exact .inl hl
    have hnone' : l.normalized.text? = none ∨ r.normalized.text? = none := by
      by_contra hsome
      simp only [not_or, ← Option.isSome_iff_ne_none] at hsome
      exact h ⟨rfl, not_and_or.mp hsame, hsome⟩
    have hbind : ∀ {a b : Option String}, a = none ∨ b = none →
        (do pure ((← a) ++ (← b)) : Option String) = none := by
      rintro (_ | a) (_ | b) (hnone | hnone) <;> first | rfl | cases hnone
    rw [hbind hnone, hbind hnone']

theorem map_single_cases (value : Except Fault Value) :
    ((∃ e, value.map Entry.single = .ok e) ↔ ∃ v, value = .ok v) ∧
      ∀ v, value = .ok v → value.map Entry.single = .ok (.single v) := by
  cases value <;> simp [Except.map]

-- In all other cases the two forms do the same, or fail both.
theorem run_of_same {op : BinaryOp} (hpast : ¬LooksPast state.store l op r)
    (hloses : ¬LosesText l op r) :
    (binaryEntry (.single l) op (.single r)).run options state =
        (((binary l op r).run options state).1.map .single,
          ((binary l op r).run options state).2) ∨
      (∃ fault, (binaryEntry (.single l) op (.single r)).run options state =
        (.error fault, state)) ∧
      ∃ fault, (binary l op r).run options state = (.error fault, state) := by
  cases op with
  | logic op =>
    rw [run_binaryEntry_logic]
    by_cases hforeign : l.isForeign ∨ r.isForeign
    · obtain ⟨fault, hvalues⟩ := ofValues_foreign hforeign hpast
      obtain ⟨kindName, hvalue⟩ := run_binary_foreign options state (.logic op) hforeign
      rw [hvalues]
      exact .inr ⟨⟨fault, rfl⟩, _, hvalue⟩
    · simp only [not_or, Bool.not_eq_true] at hforeign
      rw [run_binary_logic options state op hforeign.1 hforeign.2]
      cases op.ofValues state.store l r <;> exact .inl rfl
  | concat =>
    rw [run_binaryEntry_concat]
    by_cases hmarker : l.isMarker ∨ r.isMarker
    · obtain ⟨kindName, hconcat⟩ := concat_error hmarker
      obtain ⟨kindName', hvalue⟩ := run_binary_concat_marker options state hmarker
      rw [hconcat]
      exact .inr ⟨⟨_, rfl⟩, _, hvalue⟩
    · simp only [not_or, Bool.not_eq_true] at hmarker
      rw [concat_eq hmarker.1 hmarker.2, run_binary_concat_data options state hmarker.1 hmarker.2,
        ofText?_normalized hloses]
      exact .inl rfl
  | arithmetic op | bitwise op | compare op | identity op | modulo =>
    exact .inl (run_binaryEntry_pairs options state l r (by simp) (by simp))

-- The entry form does on single values what the value form does, but for the right operand that it
-- may not look at, and for the texts of ranges.
theorem binaryEntry_single (options : Options) (state : State) (l : Value) (op : BinaryOp)
    (r : Value) :
    let entry := (binaryEntry (.single l) op (.single r)).run options state
    let value := (binary l op r).run options state
    entry.2 = value.2 ∧
    (LooksPast state.store l op r →
      entry.1 = .ok (.single (.ofTruth? (l.truth? state.store))) ∧
        ∃ fault, value.1 = .error fault) ∧
    (¬LooksPast state.store l op r →
      ((∃ e, entry.1 = .ok e) ↔ ∃ v, value.1 = .ok v) ∧
      ∀ v, value.1 = .ok v → ¬LosesText l op r → entry.1 = .ok (.single v)) := by
  intro entry value
  by_cases hpast : LooksPast state.store l op r
  · obtain ⟨hentry, fault, hvalue⟩ := run_of_looksPast options state hpast
    rw [show entry = _ from hentry, show value = _ from hvalue]
    exact ⟨rfl, fun _ => ⟨rfl, fault, rfl⟩, fun h => absurd hpast h⟩
  · by_cases hloses : LosesText l op r
    · obtain ⟨⟨e, hentry⟩, v, hvalue⟩ := run_of_losesText options state hloses
      rw [show entry = _ from hentry, show value = _ from hvalue]
      exact ⟨rfl, fun h => absurd h hpast,
        fun _ => ⟨iff_of_true ⟨e, rfl⟩ ⟨v, rfl⟩, fun _ _ h => absurd hloses h⟩⟩
    · rcases run_of_same options state hpast hloses with
        hentry | ⟨⟨fault, hentry⟩, fault', hvalue⟩
      · rw [show entry = _ from hentry]
        obtain ⟨hiff, hresult⟩ := map_single_cases value.1
        exact ⟨rfl, fun h => absurd h hpast, fun _ => ⟨hiff, fun v hv _ => hresult v hv⟩⟩
      · rw [show entry = _ from hentry, show value = _ from hvalue]
        exact ⟨rfl, fun h => absurd h hpast, fun _ => by simp⟩

def onlyZero : Interval Int32 := ⟨0, 0, by decide⟩

-- Zero as a range settles a conjunction. Behind it a lambda function is left alone by both forms, a
-- type only by the entry form.
theorem binaryEntry_single_onlyZero :
    ¬LooksPast Store.empty (.intRange onlyZero) (.logic .and) (.marker (.lambda 0)) ∧
      ((binary (.intRange onlyZero) (.logic .and) (.marker (.lambda 0))).run {} .initial).1 =
        .ok (.bool false) ∧
      ((binaryEntry (.single (.intRange onlyZero)) (.logic .and)
        (.single (.marker (.lambda 0)))).run {} .initial).1 = .ok (.single (.bool false)) ∧
      LooksPast Store.empty (.intRange onlyZero) (.logic .and) (.marker (.type "A")) ∧
      ∃ fault, ((binary (.intRange onlyZero) (.logic .and) (.marker (.type "A"))).run {}
        .initial).1 = .error fault := by
  have hlambda : ¬LooksPast Store.empty (.intRange onlyZero) (.logic .and)
      (.marker (.lambda 0)) := by
    rintro ⟨_, -, -, -, hr⟩
    cases hr
  have htype : LooksPast Store.empty (.intRange onlyZero) (.logic .and) (.marker (.type "A")) :=
    ⟨.and, rfl, rfl, by decide, rfl⟩
  have hvalue : ((binary (.intRange onlyZero) (.logic .and) (.marker (.lambda 0))).run {}
      .initial).1 = .ok (.bool false) := by
    decide +kernel
  have hconcat : ¬LosesText (.intRange onlyZero) (.logic .and) (.marker (.lambda 0)) := by
    rintro ⟨hop, -⟩
    cases hop
  exact ⟨hlambda, hvalue, ((binaryEntry_single {} .initial _ _ _).2.2 hlambda).2 _ hvalue hconcat,
    htype, ((binaryEntry_single {} .initial _ _ _).2.1 htype).2⟩

def three : Interval Int32 := ⟨3, 3, by decide⟩

-- A function behind a left operand that settles the result, and a range of one point as a text.
theorem binaryEntry_single_differs :
    ((binaryEntry (.single (.bool false)) (.logic .and) (.single (.marker (.function "f")))).run {}
        .initial).1 = .ok (.single (.bool false)) ∧
      ((binary (.bool false) (.logic .and) (.marker (.function "f"))).run {} .initial).1 =
        .error (.notAnExpression "function") ∧
      ((binaryEntry (.single (.intRange three)) .concat (.single (.str "x"))).run {} .initial).1 =
        .ok (.single (.any .string)) ∧
      ((binary (.intRange three) .concat (.str "x")).run {} .initial).1 = .ok (.str "3x") := by
  decide +kernel

end Eval

end AbsEval
