import AbsEval.Proofs.Comparison.Definite

namespace AbsEval

-- The relation of integers that a comparison is about.

inductive CompareOp.Asks : CompareOp → (Int → Int → Prop) → Prop
  | equal : Asks equal (· = ·)
  | notEqual : Asks notEqual (· ≠ ·)
  | less : Asks less (· < ·)
  | lessEq : Asks lessEq (· ≤ ·)
  | greater : Asks greater (· > ·)
  | greaterEq : Asks greaterEq (· ≥ ·)

inductive IdentityOp.Asks : IdentityOp → (Int → Int → Prop) → Prop
  | identical : Asks identical (· = ·)
  | notIdentical : Asks notIdentical (· ≠ ·)

inductive BinaryOp.Asks : BinaryOp → (Int → Int → Prop) → Prop
  | compare {op : CompareOp} {p : Int → Int → Prop} (h : op.Asks p) : Asks (.compare op) p
  | identity {op : IdentityOp} {p : Int → Int → Prop} (h : op.Asks p) : Asks (.identity op) p

namespace Interval

variable {ls rs range : Interval Int32} {p : Int → Int → Prop} {truth : Bool}

-- The relation has one truth for all pairs from two ranges.
def Settles (p : Int → Int → Prop) (ls rs : Interval Int32) (truth : Bool) : Prop :=
  ∀ m n, ls.contains m → rs.contains n → (p m.toInt n.toInt ↔ truth = true)

theorem settles_swap_iff : Settles (fun m n => p n m) ls rs truth ↔ Settles p rs ls truth :=
  ⟨fun h m n hm hn => h n m hn hm, fun h m n hm hn => h n m hn hm⟩

theorem settles_not_iff : Settles (fun m n => ¬p m n) ls rs truth ↔ Settles p ls rs (!truth) := by
  refine forall_congr' fun m => forall_congr' fun n => imp_congr_right fun _ =>
    imp_congr_right fun _ => ?_
  cases truth <;> simp

theorem contains_iff_toInt {n : Int32} :
    range.contains n ↔ range.start.toInt ≤ n.toInt ∧ n.toInt ≤ range.stop.toInt := by
  rw [contains_iff, Int32.le_iff_toInt_le, Int32.le_iff_toInt_le]

theorem isPoint_iff_toInt : range.isPoint ↔ range.stop.toInt ≤ range.start.toInt := by
  rw [isPoint, decide_eq_true_eq, Int32.le_iff_toInt_le]

theorem isDisjoint_iff_toInt : ls.isDisjoint rs ↔
    ls.stop.toInt < rs.start.toInt ∨ rs.stop.toInt < ls.start.toInt := by
  simp [isDisjoint, Int32.lt_iff_toInt_lt]

theorem contains_point_iff {m n : Int32} : contains ⟨n, n, Int32.le_refl n⟩ m ↔ m = n := by
  rw [contains_iff]
  constructor
  · rintro ⟨hle, hge⟩
    exact Int32.le_antisymm hge hle
  · rintro rfl
    exact ⟨Int32.le_refl m, Int32.le_refl m⟩

theorem contains_ends (range : Interval Int32) :
    range.contains range.start ∧ range.contains range.stop :=
  ⟨contains_iff.mpr ⟨Int32.le_refl _, range.ordered⟩,
    contains_iff.mpr ⟨range.ordered, Int32.le_refl _⟩⟩

theorem settles_less_true_iff :
    Settles (· < ·) ls rs true ↔ ls.stop.toInt < rs.start.toInt := by
  constructor
  · intro h
    exact (h _ _ ls.contains_ends.2 rs.contains_ends.1).mpr rfl
  · intro h m n hm hn
    rw [contains_iff_toInt] at hm hn
    exact iff_of_true (by omega) rfl

theorem settles_less_false_iff :
    Settles (· < ·) ls rs false ↔ rs.stop.toInt ≤ ls.start.toInt := by
  constructor
  · intro h
    exact Int.not_lt.mp (mt (h _ _ ls.contains_ends.1 rs.contains_ends.2).mp (by simp))
  · intro h m n hm hn
    rw [contains_iff_toInt] at hm hn
    exact iff_of_false (by omega) (by simp)

-- One is not above the other where the other is not below it.
theorem settles_lessEq_iff : Settles (· ≤ ·) ls rs truth ↔ Settles (· < ·) rs ls (!truth) := by
  rw [← settles_not_iff, ← settles_swap_iff]
  simp only [Int.not_lt]

-- Two ranges that are not apart share the greater of their first ends.
theorem settles_equal_false_iff : Settles (· = ·) ls rs false ↔ ls.isDisjoint rs := by
  constructor
  · intro h
    by_contra hmeet
    simp only [isDisjoint, Bool.or_eq_true, decide_eq_true_eq, not_or, Int32.not_lt] at hmeet
    rcases Int32.le_total ls.start rs.start with hle | hle
    · have hshared := contains_iff.mpr ⟨hle, hmeet.1⟩
      exact absurd ((h _ _ hshared rs.contains_ends.1).mp rfl) (by simp)
    · have hshared := contains_iff.mpr ⟨hle, hmeet.2⟩
      exact absurd ((h _ _ ls.contains_ends.1 hshared).mp rfl) (by simp)
  · intro h m n hm hn
    refine iff_of_false (fun heq => ?_) (by simp)
    exact ne_of_isDisjoint hm hn h (Int32.toInt_inj.mp heq)

theorem settles_equal_true_iff :
    Settles (· = ·) ls rs true ↔ ¬ls.isDisjoint rs ∧ ls.isPoint ∧ rs.isPoint := by
  rw [isDisjoint_iff_toInt, isPoint_iff_toInt, isPoint_iff_toInt]
  constructor
  · intro h
    have hstarts := (h _ _ ls.contains_ends.1 rs.contains_ends.1).mpr rfl
    have hleft := (h _ _ ls.contains_ends.2 rs.contains_ends.1).mpr rfl
    have hright := (h _ _ ls.contains_ends.1 rs.contains_ends.2).mpr rfl
    omega
  · intro h m n hm hn
    rw [contains_iff_toInt] at hm hn
    exact iff_of_true (by omega) rfl

-- Whether integers from two ranges are the same: never if the ranges are apart, always if both are
-- one point.
def equal? (ls rs : Interval Int32) : Option Bool :=
  if ls.isDisjoint rs then some false
  else if ls.isPoint && rs.isPoint then some true
  else none

theorem equal?_eq_some_iff : ls.equal? rs = some truth ↔ Settles (· = ·) ls rs truth := by
  unfold equal?
  by_cases hdisjoint : ls.isDisjoint rs
  · cases truth <;> simp [hdisjoint, settles_equal_true_iff, settles_equal_false_iff]
  · cases truth <;> simp [hdisjoint, settles_equal_true_iff, settles_equal_false_iff]

theorem equal?_of_not_isPoint (h : ¬(ls.isPoint ∧ rs.isPoint)) :
    ls.equal? rs = if ls.isDisjoint rs then some false else none := by
  unfold equal?
  rw [← Bool.and_eq_true] at h
  rw [if_neg h]

theorem isDisjoint_point (n : Int32) (range : Interval Int32) :
    isDisjoint ⟨n, n, Int32.le_refl n⟩ range = !range.contains n := by
  rw [Bool.eq_iff_iff, isDisjoint_iff_toInt, Bool.not_eq_true', ← Bool.not_eq_true,
    contains_iff_toInt]
  dsimp only
  omega

theorem isDisjoint_entire (range : Interval Int32) : entire.isDisjoint range = false := by
  have hlow := Int32.not_lt.mpr (Int32.minValue_le range.stop)
  have hhigh := Int32.not_lt.mpr (Int32.le_maxValue range.start)
  exact Bool.or_eq_false_iff.mpr ⟨decide_eq_false hhigh, decide_eq_false hlow⟩

theorem equal?_entire (range : Interval Int32) :
    entire.equal? range = none ∧ range.equal? entire = none := by
  have hentire : ¬(entire : Interval Int32).isPoint := by decide
  rw [equal?_of_not_isPoint (fun h => hentire h.1), equal?_of_not_isPoint (fun h => hentire h.2),
    isDisjoint_comm range, isDisjoint_entire]
  exact ⟨rfl, rfl⟩

theorem map_not_equal?_eq_some_iff :
    (ls.equal? rs).map not = some truth ↔ Settles (· ≠ ·) ls rs truth := by
  refine Iff.trans ?_ (equal?_eq_some_iff.trans settles_not_iff.symm)
  rcases ls.equal? rs with _ | _ | _ <;> cases truth <;> simp

end Interval

theorem IdentityOp.Asks.holds?_eq_some_iff {op : IdentityOp} {p : Int → Int → Prop} (h : op.Asks p)
    {ls rs : Interval Int32} {truth : Bool} :
    op.holds? (ls.equal? rs) = some truth ↔ Interval.Settles p ls rs truth := by
  cases h with
  | identical => exact Interval.equal?_eq_some_iff
  | notIdentical => exact Interval.map_not_equal?_eq_some_iff

def Span.ofRange (range : Interval Int32) : Span :=
  .ofInts range.start.toInt range.stop.toInt

namespace CompareOp

variable {ls rs : Interval Int32} {p : Int → Int → Prop} {truth : Bool}

theorem equal?_ofRange : equal? (.ofRange ls) (.ofRange rs) = ls.equal? rs := by
  have hl := Int32.le_iff_toInt_le.mp ls.ordered
  have hr := Int32.le_iff_toInt_le.mp rs.ordered
  simp only [equal?, Interval.equal?, Span.ofRange, Span.ofInts, Bool.and_eq_true, Bool.or_eq_true,
    decide_eq_true_eq, Double.numEq_ofInt, Double.ofInt_lt_ofInt, Double.natAbs_toInt_lt,
    Interval.isDisjoint_iff_toInt, Interval.isPoint_iff_toInt]
  split
  · rw [if_neg (by omega), if_pos (by omega)]
  · split
    · rfl
    · rw [if_neg (by omega)]

-- A test for each truth, of which at most one succeeds.
theorem ite_eq_some_iff {P Q : Prop} [Decidable P] [Decidable Q] {answer : Bool → Prop}
    (htrue : answer true ↔ P) (hfalse : answer false ↔ Q) (hboth : P → ¬Q) :
    (if P then some true else if Q then some false else none) = some truth ↔ answer truth := by
  by_cases hP : P
  · cases truth <;> simp [htrue, hfalse, hP, hboth hP]
  · cases truth <;> simp [htrue, hfalse, hP]

theorem less?_ofRange_eq_some_iff :
    less? (.ofRange ls) (.ofRange rs) = some truth ↔ Interval.Settles (· < ·) ls rs truth := by
  have hl := Int32.le_iff_toInt_le.mp ls.ordered
  have hr := Int32.le_iff_toInt_le.mp rs.ordered
  simp only [less?, Span.ofRange, Span.ofInts, Double.ofInt_le_ofInt, Double.ofInt_lt_ofInt,
    Double.natAbs_toInt_lt]
  apply ite_eq_some_iff Interval.settles_less_true_iff Interval.settles_less_false_iff
  omega

theorem lessEq?_ofRange_eq_some_iff :
    lessEq? (.ofRange ls) (.ofRange rs) = some truth ↔ Interval.Settles (· ≤ ·) ls rs truth := by
  have hl := Int32.le_iff_toInt_le.mp ls.ordered
  have hr := Int32.le_iff_toInt_le.mp rs.ordered
  simp only [lessEq?, Span.ofRange, Span.ofInts, Double.ofInt_le_ofInt, Double.ofInt_lt_ofInt,
    Double.natAbs_toInt_lt]
  apply ite_eq_some_iff
  · exact Interval.settles_lessEq_iff.trans Interval.settles_less_false_iff
  · exact Interval.settles_lessEq_iff.trans Interval.settles_less_true_iff
  · omega

theorem Asks.decide?_eq_some_iff {op : CompareOp} (h : op.Asks p) :
    op.decide? (.ofRange ls) (.ofRange rs) = some truth ↔ Interval.Settles p ls rs truth := by
  cases h with
  | equal => rw [decide?, equal?_ofRange, Interval.equal?_eq_some_iff]
  | notEqual => rw [decide?, equal?_ofRange, Interval.map_not_equal?_eq_some_iff]
  | less => exact less?_ofRange_eq_some_iff
  | lessEq => exact lessEq?_ofRange_eq_some_iff
  | greater => exact less?_ofRange_eq_some_iff.trans Interval.settles_swap_iff.symm
  | greaterEq => exact lessEq?_ofRange_eq_some_iff.trans Interval.settles_swap_iff.symm

end CompareOp

namespace Value

variable {l r v : Value} {ls rs range : Interval Int32}

-- The forms of a value that can only be an integer, ranges of one point apart, with the integers it
-- stands for.
inductive IsIntegers : Value → Interval Int32 → Prop
  | int (n : Int32) : IsIntegers (.int n) ⟨n, n, Int32.le_refl n⟩
  | range {range : Interval Int32} (h : ¬range.isPoint) : IsIntegers (.intRange range) range
  | all : IsIntegers (.any .integer) .entire

theorem IsIntegers.isOperand (h : v.IsIntegers range) : v.isOperand := by
  cases h <;> rfl

theorem exists_isIntegers (h : v.families = [.integer]) :
    ∃ range, v.normalized.IsIntegers range ∧ ∀ n, v.Describes (.int n) ↔ range.contains n := by
  cases v with
  | int m =>
    refine ⟨_, .int m, fun n => ?_⟩
    rw [Interval.contains_point_iff]
    exact int.injEq n m ▸ Iff.rfl
  | intRange range =>
    have hmembers (n : Int32) : (intRange range).Describes (.int n) ↔ range.contains n := by
      constructor
      · rintro ⟨_, ⟨⟩, hn⟩
        exact hn
      · intro hn
        exact ⟨n, rfl, hn⟩
    by_cases hpoint : range.isPoint
    · obtain ⟨start, stop, hle⟩ := range
      rw [normalized, if_pos hpoint]
      obtain rfl : start = stop := Int32.le_antisymm hle (of_decide_eq_true hpoint)
      exact ⟨_, .int start, hmembers⟩
    · refine ⟨range, ?_, hmembers⟩
      rw [normalized, if_neg hpoint]
      exact .range hpoint
  | any kind =>
    cases kind with
    | integer =>
      refine ⟨.entire, .all, fun n => iff_of_true ⟨rfl, by simp [families, Kind.families]⟩ ?_⟩
      exact Interval.contains_iff.mpr ⟨Int32.minValue_le n, Int32.le_maxValue n⟩
    | _ => cases h
  | _ => cases h

theorem compare?_of_integers (store : Store) (op : CompareOp) (hl : l.IsIntegers ls)
    (hr : r.IsIntegers rs) :
    l.compare? store op r = .quiet (op.decide? (.ofRange ls) (.ofRange rs)) := by
  cases hl <;> cases hr <;> rfl

theorem same?_of_integers (hl : l.IsIntegers ls) (hr : r.IsIntegers rs) :
    l.same? r = ls.equal? rs := by
  cases hl with
  | int m =>
    cases hr with
    | int n =>
      rw [same?_int, eq_comm, Interval.equal?_eq_some_iff]
      intro a c ha hc
      obtain rfl := Interval.contains_point_iff.mp ha
      obtain rfl := Interval.contains_point_iff.mp hc
      exact Int32.toInt_inj.trans decide_eq_true_iff.symm
    | range hpoint =>
      rw [Interval.equal?_of_not_isPoint (fun h => hpoint h.2), Interval.isDisjoint_point]
      change (if rs.contains m then none else some false) = _
      cases rs.contains m <;> rfl
    | all => exact (Interval.equal?_entire _).2.symm
  | range hpoint =>
    cases hr with
    | int n =>
      rw [Interval.equal?_of_not_isPoint (fun h => hpoint h.1), Interval.isDisjoint_comm,
        Interval.isDisjoint_point]
      change (if ls.contains n then none else some false) = _
      cases ls.contains n <;> rfl
    | range hpoint' =>
      rw [Interval.equal?_of_not_isPoint (fun h => hpoint h.1)]
      rfl
    | all => exact (Interval.equal?_entire _).2.symm
  | all =>
    rw [(Interval.equal?_entire rs).1]
    cases hr <;> rfl

end Value

namespace Eval

variable (options : Options) (state : State) {l r : Value} {op : BinaryOp} {p : Int → Int → Prop}
  {ls rs : Interval Int32}

theorem exists_run_asks (hop : op.Asks p) (hls : l.normalized.IsIntegers ls)
    (hrs : r.normalized.IsIntegers rs) :
    ∃ truth, ((binary l op r).run options state).1 = .ok (.ofTruth? truth) ∧
      ∀ b, truth = some b ↔ Interval.Settles p ls rs b := by
  have hl := hls.isOperand
  have hr := hrs.isOperand
  cases hop with
  | @compare op _ hop =>
    have hrun := run_guarded options state (compare op l.normalized r.normalized) hl hr
    refine ⟨_, (congrArg Prod.fst hrun).trans (run_compare options state op _ _), fun b => ?_⟩
    rw [Value.compare?_of_integers _ op hls hrs]
    exact hop.decide?_eq_some_iff
  | @identity op _ hop =>
    have hrun := run_guarded options state (identity op l.normalized r.normalized) hl hr
    refine ⟨_, (congrArg Prod.fst hrun).trans (run_identity options state op _ _), fun b => ?_⟩
    rw [Value.same?_of_integers hls hrs]
    exact hop.holds?_eq_some_iff

-- Integers, ranges of them and the kind of all are compared exactly: the answer is definite if and
-- only if it is the same for all pairs of members.
theorem integer_comparison_exact (hop : op.Asks p) (hl : l.families = [.integer])
    (hr : r.families = [.integer]) :
    ∃ v, ((binary l op r).run options state).1 = .ok v ∧
      (∀ b, v = .bool b ↔ ∀ a c, l.Describes (.int a) → r.Describes (.int c) →
        (p a.toInt c.toInt ↔ b = true)) ∧
      ((¬∃ b, ∀ a c, l.Describes (.int a) → r.Describes (.int c) →
        (p a.toInt c.toInt ↔ b = true)) → v = .any .boolean) := by
  obtain ⟨ls, hls, hlm⟩ := Value.exists_isIntegers hl
  obtain ⟨rs, hrs, hrm⟩ := Value.exists_isIntegers hr
  obtain ⟨truth, hrun, htruth⟩ := exists_run_asks options state hop hls hrs
  refine ⟨_, hrun, Value.ofTruth?_exact fun b => (htruth b).trans ?_⟩
  simp only [Interval.Settles, hlm, hrm]

def upToSeven : Interval Int32 := ⟨3, 7, by decide⟩

def fromSeven : Interval Int32 := ⟨7, 9, by decide⟩

-- Two ranges that meet in an end: never above, not always below.
theorem integer_comparison_exact_touching :
    BinaryOp.Asks (.compare .lessEq) (· ≤ ·) ∧ BinaryOp.Asks (.compare .less) (· < ·) ∧
      (Value.intRange upToSeven).families = [.integer] ∧
      (Value.intRange fromSeven).families = [.integer] ∧
      ((binary (.intRange upToSeven) (.compare .lessEq) (.intRange fromSeven)).run
        {} .initial).1 = .ok (.bool true) ∧
      ((binary (.intRange upToSeven) (.compare .less) (.intRange fromSeven)).run
        {} .initial).1 = .ok (.any .boolean) := by
  have hle : ∀ a c, (Value.intRange upToSeven).Describes (.int a) →
      (Value.intRange fromSeven).Describes (.int c) → a.toInt ≤ c.toInt := by
    rintro a c ⟨_, ⟨⟩, ha⟩ ⟨_, ⟨⟩, hc⟩
    exact Int.le_trans (Interval.contains_iff_toInt.mp ha).2 (Interval.contains_iff_toInt.mp hc).1
  obtain ⟨_, hlessEq, hdefinite, -⟩ := integer_comparison_exact {} .initial
    (.compare .lessEq) (l := .intRange upToSeven) (r := .intRange fromSeven) rfl rfl
  obtain ⟨_, hless, -, hopen⟩ := integer_comparison_exact {} .initial
    (.compare .less) (l := .intRange upToSeven) (r := .intRange fromSeven) rfl rfl
  refine ⟨.compare .lessEq, .compare .less, rfl, rfl, ?_, ?_⟩
  · rw [hlessEq, (hdefinite true).mpr fun a c ha hc => iff_of_true (hle a c ha hc) rfl]
  · rw [hless, hopen]
    rintro ⟨b, hb⟩
    have hbelow := (hb 3 9 ⟨3, rfl, by decide⟩ ⟨9, rfl, by decide⟩).mp (by decide)
    exact absurd ((hb 7 7 ⟨7, rfl, by decide⟩ ⟨7, rfl, by decide⟩).mpr hbelow) (by decide)

end Eval

end AbsEval
