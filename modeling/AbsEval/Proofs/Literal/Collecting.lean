import AbsEval.Proofs.Literal.Counter
import AbsEval.Proofs.Literal.Placement
import Mathlib.Data.List.Forall2
import Mathlib.Data.List.Induction

namespace AbsEval

-- One value for each key that is written.
def Picks (picks : List (Option Value)) (items : List (Option Entry)) : Prop :=
  List.Forall₂ (Option.Rel fun v key => v ∈ key.values) picks items

-- The next free index after an item. An item without a key takes it.
def stepIndex (options : Options) (index : Option Int32) : Option Value → Option Int32
  | some v => nextIndex index (Candidate.ofValue options v).key?
  | none => index.bind fun n => int32? (n.toInt + 1)

-- The next free index after these items, in some run.
def Reaches (options : Options) (items : List (Option Entry)) (n : Int32) : Prop :=
  ∃ picks, Picks picks items ∧ picks.foldl (stepIndex options) (some 0) = some n

-- A value of a key is looked at, unless it is an integer and the text of its digits comes first.
def Visible (options : Options) (v : Value) (key : Entry) : Prop :=
  v ∈ key.values ∧ ∀ n, Candidate.ofValue options v = .key (.int n) → ¬Hidden options key n

-- The indexes that are found behind these items.
def LeadsTo (options : Options) (items : List (Option Entry)) (n : Int32) : Prop :=
  ∃ picks, List.Forall₂ (Option.Rel (Visible options)) picks items ∧
    picks.foldl (stepIndex options) (some 0) = some n

def HasUnknown (options : Options) (items : List (Option Entry)) : Prop :=
  ∃ key, some key ∈ items ∧ ∃ v ∈ key.values, ∃ integer maybeIllegal,
    Candidate.ofValue options v = .unknown integer maybeIllegal

-- What an item without a key gets behind these items: any key if one of them is unknown, otherwise
-- the indexes of all runs, each once, and a warning if no run has one.
structure Collects (options : Options) (items : List (Option Entry)) (selector : Selector)
    (report : List Warning) : Prop where
  any_iff : selector = .any ↔ HasUnknown options items
  unreported : HasUnknown options items → report = []
  indexes : ¬HasUnknown options items → ∃ names, selector = .names names ∧ names.Nodup ∧
    ∀ name, name ∈ names ↔ ∃ n, Reaches options items n ∧ integerText n.toInt = name
  reported_iff : ¬HasUnknown options items →
    (report = [.illegalOffsetInLiteral] ↔ ¬∃ n, Reaches options items n) ∧
      (report = [] ↔ ∃ n, Reaches options items n)

section Step

variable {options : Options} {items : List (Option Entry)} {item : Option Entry} {key : Entry}
  {current : List Int32} {n m : Int32} {v : Value}

theorem hasUnknown_append_singleton : HasUnknown options (items ++ [item]) ↔
    HasUnknown options items ∨
      ∃ key, item = some key ∧ (IndexClass.ofEntry options key).isConcrete = false := by
  simp only [HasUnknown, IndexClass.isConcrete_eq_false_iff, Candidate.isConcrete_eq_false_iff,
    List.mem_append, List.mem_singleton, or_and_right, exists_or, eq_comm (a := some _)]

theorem leadsTo_iff_reaches (ho : options.canonicalIntegerKeys) :
    LeadsTo options items n ↔ Reaches options items n := by
  have hvisible : Visible options = fun v key => v ∈ key.values := by
    funext v key
    simp [Visible, IndexClass.not_hidden ho]
  unfold LeadsTo Reaches Picks
  rw [hvisible]

theorem leadsTo_nil : LeadsTo options [] n ↔ n = 0 := by
  constructor
  · rintro ⟨picks, hpicks, hn⟩
    cases hpicks
    exact (Option.some.inj hn).symm
  · rintro rfl
    exact ⟨[], .nil, rfl⟩

-- Once there is no index there is none behind.
theorem stepIndex_none (options : Options) (pick : Option Value) :
    stepIndex options none pick = none := by
  cases pick with
  | none => rfl
  | some v => exact nextIndex_none _

theorem leadsTo_append_singleton : LeadsTo options (items ++ [item]) n ↔
    ∃ m, LeadsTo options items m ∧ ∃ pick,
      Option.Rel (Visible options) pick item ∧ stepIndex options (some m) pick = some n := by
  constructor
  · rintro ⟨picks, hpicks, hn⟩
    have hfront := List.forall₂_take_append _ _ _ hpicks
    have hlast := List.forall₂_drop_append _ _ _ hpicks
    rw [← List.take_append_drop items.length picks] at hn
    generalize picks.take items.length = front at hfront hn
    generalize picks.drop items.length = back at hlast hn
    cases hlast with
    | @cons pick _ back _ hpick hback =>
      cases hback
      rw [List.foldl_append, List.foldl_cons, List.foldl_nil] at hn
      cases hm : front.foldl (stepIndex options) (some 0) with
      | none =>
        rw [hm, stepIndex_none] at hn
        cases hn
      | some m => exact ⟨m, ⟨front, hfront, hm⟩, pick, hpick, hm ▸ hn⟩
  · rintro ⟨m, ⟨picks, hpicks, hm⟩, pick, hpick, hn⟩
    refine ⟨picks ++ [pick], List.rel_append hpicks (.cons hpick .nil), ?_⟩
    rw [List.foldl_append, hm, List.foldl_cons, List.foldl_nil, hn]

theorem stepIndex_of_not_isInteger (h : (Candidate.ofValue options v).isInteger = false)
    (index : Option Int32) : stepIndex options index (some v) = index := by
  simp only [stepIndex]
  generalize Candidate.ofValue options v = candidate at h ⊢
  cases candidate with
  | key k =>
    cases k with
    | int k => cases h
    | str text => rfl
  | unknown integer maybeIllegal => rfl
  | illegal => rfl

theorem stepIndex_int {k : Int32} (h : Candidate.ofValue options v = .key (.int k)) :
    stepIndex options (some m) (some v) = (int32? (k.toInt + 1)).map (max m) := by
  simp only [stepIndex, h]
  rfl

-- A known key takes the indexes to those that its values take them to.
theorem exists_after_some (h : (IndexClass.ofEntry options key).isConcrete)
    (current : List Int32) :
    ∃ next, Counter.after options (some current) (some key) = some next ∧
      ∀ n, n ∈ next ↔ ∃ m ∈ current, ∃ v, Visible options v key ∧
        stepIndex options (some m) (some v) = some n := by
  obtain ⟨next, hnext, hmem⟩ := Counter.exists_afterKey h current
  refine ⟨next, hnext, fun n => (hmem n).trans ⟨?_, ?_⟩⟩
  · rintro (⟨hint, hn⟩ | hn)
    · obtain ⟨v, hv, hint⟩ := IndexClass.isInteger_eq_false_iff.mp hint
      refine ⟨n, hn, v, ⟨hv, fun k hk => ?_⟩, stepIndex_of_not_isInteger hint _⟩
      rw [hk] at hint
      cases hint
    · obtain ⟨m, hm, k, hk, hn⟩ := Counter.mem_successors.mp hn
      obtain ⟨v, hv, hvk⟩ := IndexClass.exists_of_mem_keys (IndexClass.mem_intKeys.mp hk)
      refine ⟨m, hm, v, ⟨hv, fun k' hk' => ?_⟩, (stepIndex_int hvk).trans hn⟩
      cases hvk.symm.trans hk'
      exact (IndexClass.mem_intKeys_iff hv hvk).mp hk
  · rintro ⟨m, hm, v, ⟨hv, hseen⟩, hn⟩
    cases hint : (Candidate.ofValue options v).isInteger with
    | true =>
      obtain ⟨k, hk⟩ :=
        (Candidate.isInteger_of_isConcrete (IndexClass.isConcrete_iff.mp h v hv)).mp hint
      rw [stepIndex_int hk] at hn
      have hmemk := (IndexClass.mem_intKeys_iff hv hk).mpr (hseen k hk)
      exact .inr (Counter.mem_successors.mpr ⟨m, hm, k, hmemk, hn⟩)
    | false =>
      rw [stepIndex_of_not_isInteger hint] at hn
      obtain rfl := Option.some.inj hn
      exact .inl ⟨IndexClass.isInteger_eq_false_iff.mpr ⟨v, hv, hint⟩, hm⟩

end Step

section Run

variable {options : Options} {items : List (Option Entry)}

theorem foldl_after_of_hasUnknown (h : HasUnknown options items) :
    items.foldl (Counter.after options) .initial = none := by
  induction items using List.reverseRecOn with
  | nil =>
    obtain ⟨key, hkey, -⟩ := h
    cases hkey
  | append_singleton items item ih =>
    rw [List.foldl_append, List.foldl_cons, List.foldl_nil]
    rcases hasUnknown_append_singleton.mp h with h | ⟨key, rfl, hkey⟩
    · rw [ih h, Counter.after_none]
    · exact Counter.afterKey_unknown hkey

-- The counter holds the indexes of all runs. The induction goes to the last item, as runs do.
theorem exists_foldl_after (h : ¬HasUnknown options items) :
    ∃ current, items.foldl (Counter.after options) .initial = some current ∧
      ∀ n, n ∈ current ↔ LeadsTo options items n := by
  induction items using List.reverseRecOn with
  | nil =>
    refine ⟨[0], rfl, fun n => ?_⟩
    rw [List.mem_singleton, leadsTo_nil]
  | append_singleton items item ih =>
    rw [hasUnknown_append_singleton, not_or] at h
    obtain ⟨hitems, hitem⟩ := h
    obtain ⟨current, hcurrent, hmem⟩ := ih hitems
    simp only [List.foldl_append, List.foldl_cons, List.foldl_nil, hcurrent,
      leadsTo_append_singleton, ← hmem]
    cases item with
    | some key =>
      have hkey : (IndexClass.ofEntry options key).isConcrete :=
        Bool.of_not_eq_false fun hfalse => hitem ⟨key, rfl, hfalse⟩
      obtain ⟨next, hnext, hmem⟩ := exists_after_some hkey current
      refine ⟨next, hnext, fun n => (hmem n).trans ?_⟩
      constructor
      · rintro ⟨m, hm, v, hv, hn⟩
        exact ⟨m, hm, some v, .some hv, hn⟩
      · rintro ⟨m, hm, _, ⟨hv⟩, hn⟩
        exact ⟨m, hm, _, hv, hn⟩
    | none =>
      refine ⟨_, rfl, fun n => (Counter.mem_afterItem rfl).trans ?_⟩
      constructor
      · rintro ⟨m, hm, hn⟩
        exact ⟨m, hm, none, .none, hn⟩
      · rintro ⟨m, hm, _, ⟨⟩, hn⟩
        exact ⟨m, hm, hn⟩

theorem collects_foldl_after (ho : options.canonicalIntegerKeys) (items : List (Option Entry)) :
    Collects options items
      ((items.foldl (Counter.after options) .initial).selectorOf options none)
      ((items.foldl (Counter.after options) .initial).reportsOf options none) := by
  by_cases h : HasUnknown options items
  · rw [foldl_after_of_hasUnknown h]
    exact ⟨iff_of_true rfl h, fun _ => rfl, absurd h, absurd h⟩
  · obtain ⟨current, hcurrent, hmem⟩ := exists_foldl_after h
    simp only [leadsTo_iff_reaches ho] at hmem
    rw [hcurrent]
    refine ⟨iff_of_false Selector.noConfusion h, (absurd · h), fun _ => ?_, fun _ => ?_⟩
    · refine ⟨_, rfl, nodup_eraseDups _, fun name => ?_⟩
      simp only [List.mem_eraseDups, List.mem_map, hmem]
    · simp only [← hmem, Counter.reportsOf, Option.some.injEq]
      cases current with
      | nil => simp
      | cons n current => simp

end Run

namespace Eval

-- The keys of an array literal are found exactly: what an item without a key gets is what the runs
-- of the items in front of it come to.
theorem literalKeys_collect {options : Options} {state last : State} {items : List (Option Entry)}
    {selectors : List Selector} (ho : options.canonicalIntegerKeys)
    (h : (literalKeys items).run options state = (.ok selectors, last)) :
    ∃ reports : List (List Warning), last = state.reporting reports.flatten ∧
      selectors.length = items.length ∧ reports.length = items.length ∧
      (∀ (i : Nat) (key : Entry), items[i]? = some (some key) →
        reports[i]? = some (illegalReports options .illegalOffsetInLiteral key.values)) ∧
      ∀ i : Nat, items[i]? = some none → ∃ selector report,
        selectors[i]? = some selector ∧ reports[i]? = some report ∧
          Collects options (items.take i) selector report := by
  obtain ⟨-, rfl, rfl⟩ := run_literalKeys_eq_ok h
  refine ⟨itemReports options .initial items, rfl, length_itemSelectors, length_itemReports,
    fun i key hi => ?_, fun i hi => ?_⟩
  · rw [getElem?_itemReports, hi]
    rfl
  · rw [getElem?_itemSelectors, getElem?_itemReports, hi]
    exact ⟨_, _, rfl, rfl, collects_foldl_after ho (items.take i)⟩

-- A key that is an integer, a text or illegal, then the greatest one, then one that is unknown.
def threeKeys : List (Option Entry) :=
  [some (.ofNonempty [.str "5", .str "a", .array 7] (by simp)), none,
    some (.single (.int Int32.maxValue)), none, some (.single (.any .integer)), none]

theorem literalKeys_collect_threeKeys :
    ∃ last, (literalKeys threeKeys).run {} .initial =
        (.ok [.names ["5", "a"], .names ["0", "6"], .names ["2147483647"], .names [], .any, .any],
          last) ∧
      last.warnings = [.illegalOffsetInLiteral, .illegalOffsetInLiteral] ∧
      (∃ report, Collects {} (threeKeys.take 1) (.names ["0", "6"]) report) ∧
      (∃ report, Collects {} (threeKeys.take 3) (.names []) report) ∧
      ∃ report, Collects {} (threeKeys.take 5) .any report := by
  have hrun : (literalKeys threeKeys).run {} .initial =
      (.ok [.names ["5", "a"], .names ["0", "6"], .names ["2147483647"], .names [], .any, .any],
        State.initial.reporting [.illegalOffsetInLiteral, .illegalOffsetInLiteral]) := by
    decide +kernel
  obtain ⟨reports, -, -, -, -, hcollects⟩ := literalKeys_collect rfl hrun
  refine ⟨_, hrun, rfl, ?_, ?_, ?_⟩
  · obtain ⟨_, report, ⟨⟩, -, hcollects⟩ := hcollects 1 rfl
    exact ⟨report, hcollects⟩
  · obtain ⟨_, report, ⟨⟩, -, hcollects⟩ := hcollects 3 rfl
    exact ⟨report, hcollects⟩
  · obtain ⟨_, report, ⟨⟩, -, hcollects⟩ := hcollects 5 rfl
    exact ⟨report, hcollects⟩

end Eval

end AbsEval
