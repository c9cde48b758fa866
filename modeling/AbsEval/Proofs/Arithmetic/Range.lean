import AbsEval.Proofs.Arithmetic.Exact
import AbsEval.Proofs.Value.Admits

namespace AbsEval

namespace Double

variable {x y : Double} {xs : List Double}

theorem le_self (h : x.isNaN = false) : x ≤ x := by
  cases hp : x.position? with
  | none =>
    rw [position?_eq_none_iff.mp hp] at h
    cases h
  | some a => exact le_iff.mpr ⟨a, a, hp, hp, Int.le_refl a⟩

theorem le_or_le (hx : x ≤ x) (hy : y ≤ y) : x ≤ y ∨ y ≤ x := by
  obtain ⟨a, _, ha, -⟩ := le_iff.mp hx
  obtain ⟨b, _, hb, -⟩ := le_iff.mp hy
  rcases Int.le_total a b with h | h
  · exact .inl (le_iff.mpr ⟨a, b, ha, hb, h⟩)
  · exact .inr (le_iff.mpr ⟨b, a, hb, ha, h⟩)

theorem lesser_le (hx : x ≤ x) (hy : y ≤ y) : lesser x y ≤ x ∧ lesser x y ≤ y := by
  unfold lesser
  split
  · next h => exact ⟨hx, h⟩
  · next h => exact ⟨(le_or_le hx hy).resolve_left h, hy⟩

theorem le_greater (hx : x ≤ x) (hy : y ≤ y) : x ≤ greater x y ∧ y ≤ greater x y := by
  unfold greater
  split
  · next h => exact ⟨hx, h⟩
  · next h => exact ⟨(le_or_le hx hy).resolve_right h, hy⟩

theorem foldl_lesser_le (hx : x ≤ x) (hxs : ∀ y ∈ xs, y ≤ y) :
    xs.foldl lesser x ≤ x ∧ ∀ y ∈ xs, xs.foldl lesser x ≤ y := by
  induction xs generalizing x with
  | nil => exact ⟨hx, by simp⟩
  | cons y ys ih =>
    obtain ⟨hy, hys⟩ := List.forall_mem_cons.mp hxs
    obtain ⟨hleft, hright⟩ := lesser_le hx hy
    obtain ⟨hfold, hrest⟩ := ih (le_self_of_le hleft) hys
    exact ⟨le_trans hfold hleft, List.forall_mem_cons.mpr ⟨le_trans hfold hright, hrest⟩⟩

theorem le_foldl_greater (hx : x ≤ x) (hxs : ∀ y ∈ xs, y ≤ y) :
    x ≤ xs.foldl greater x ∧ ∀ y ∈ xs, y ≤ xs.foldl greater x := by
  induction xs generalizing x with
  | nil => exact ⟨hx, by simp⟩
  | cons y ys ih =>
    obtain ⟨hy, hys⟩ := List.forall_mem_cons.mp hxs
    obtain ⟨hleft, hright⟩ := le_greater hx hy
    have hself : greater x y ≤ greater x y := by
      unfold greater
      split
      · exact hx
      · exact hy
    obtain ⟨hfold, hrest⟩ := ih hself hys
    exact ⟨le_trans hleft hfold, List.forall_mem_cons.mpr ⟨le_trans hright hfold, hrest⟩⟩

end Double

namespace Value

variable {v c : Value} {x : Double}

@[simp] theorem families_normalized (v : Value) : v.normalized.families = v.families := by
  cases v with
  | intRange | longRange | floatRange =>
    simp only [normalized]
    split <;> rfl
  | _ => rfl

section Between

variable {α : Type} [LE α] [DecidableLE α] {range : Interval α → Value} {kind : Kind}

theorem numbersBetween_of_le {low high : α} (h : low ≤ high) :
    numbersBetween range kind low high = (range ⟨low, high, h⟩).normalized := by
  simp [numbersBetween, Interval.spanning?, Interval.between?, h]

theorem families_numbersBetween (hrange : ∀ i, (range i).normalized.families = kind.families)
    (a b : α) :
    (numbersBetween range kind a b).families = kind.families := by
  unfold numbersBetween
  cases Interval.spanning? a b with
  | none => rfl
  | some i => exact hrange i

end Between

theorem intsBetween_of_le {low high : Int32} (h : low ≤ high) :
    intsBetween low high = (intRange ⟨low, high, h⟩).normalized :=
  numbersBetween_of_le h

theorem intsBetween_self (n : Int32) : intsBetween n n = int n := by
  have hpoint : Interval.isPoint ⟨n, n, Int32.le_refl n⟩ := decide_eq_true (Int32.le_refl n)
  rw [intsBetween_of_le (Int32.le_refl n), normalized, if_pos hpoint]

-- Only of floats there are two that count as the same.
theorem describes_of_admits_of_ne (h : v.Admits c) (hc : ∀ x, c ≠ float x) : v.Describes c := by
  rcases h with h | ⟨x, y, -, hy, -⟩
  · exact h
  · exact absurd hy (hc y)

theorem describes_intsBetween {low high n : Int32} (hlow : low ≤ n) (hhigh : n ≤ high) :
    (intsBetween low high).Describes (int n) := by
  have hle := Int32.le_trans hlow hhigh
  have hadmits : (intRange ⟨low, high, hle⟩).normalized.Admits (int n) :=
    admits_normalized ⟨n, rfl, Interval.contains_iff.mpr ⟨hlow, hhigh⟩⟩
  rw [intsBetween_of_le hle]
  exact describes_of_admits_of_ne hadmits (by simp)

-- The float itself up to the sign of zero, or an interval of floats that has it.
def HasFloat (v : Value) (x : Double) : Prop :=
  (∃ y, v = float y ∧ y.numEq x) ∨ ∃ range, v = floatRange range ∧ range.contains x

theorem admits_of_hasFloat (h : v.HasFloat x) : v.Admits (float x) := by
  rcases h with ⟨y, rfl, hyx⟩ | ⟨range, rfl, hx⟩
  · exact .inr ⟨y, x, rfl, rfl, hyx⟩
  · exact .inl ⟨x, rfl, hx⟩

theorem hasFloat_floatsBetween {low high : Double} (hlow : low ≤ x) (hhigh : x ≤ high) :
    (floatsBetween low high).HasFloat x := by
  have hle := Double.le_trans hlow hhigh
  rw [floatsBetween, numbersBetween_of_le hle, normalized]
  split
  · next hpoint =>
    have hback : high ≤ low := of_decide_eq_true hpoint
    exact .inl ⟨low, rfl, Double.numEq_of_le_of_le hlow (Double.le_trans hhigh hback)⟩
  · exact .inr ⟨_, rfl, Interval.contains_iff.mpr ⟨hlow, hhigh⟩⟩

theorem families_intsBetween (a b : Int32) : (intsBetween a b).families = [.integer] :=
  families_numbersBetween (fun i => families_normalized (intRange i)) a b

theorem families_floatsBetween (a b : Double) : (floatsBetween a b).families = [.float] :=
  families_numbersBetween (fun i => families_normalized (floatRange i)) a b

-- Only of zero there are two.
theorem describes_of_admits {p : Int} (h : v.Admits (float x)) (hx : x.position? = some p)
    (hp : p ≠ 0) : v.Describes (float x) := by
  rcases h with h | ⟨y, z, rfl, hz, hyz⟩
  · exact h
  · cases hz
    have hy : y.position? = some p := (Double.position?_of_numEq hyz).trans hx
    exact congrArg float (Double.eq_of_position?_eq hx hy hp)

-- A float never stands for an integer.
theorem not_describes_int (hv : v.families = [.float]) (n : Int32) : ¬v.Describes (int n) := by
  intro h
  have hsub := families_subset_of_describes h
  rw [hv] at hsub
  simp [families] at hsub

-- As `Describes`, but an integer may be lost among floats that have the equal float.
def Bounds (v c : Value) : Prop :=
  v.Describes c ∨ ∃ n, c = int n ∧ v.HasFloat (.ofInt n.toInt)

end Value

namespace ArithmeticOp

variable {op : ArithmeticOp}

section Floats

variable {l r : OperandRange} {z : Double}

-- What lies between two corners is covered, if all of them have a place on the line.
theorem hasFloat_floatCorners
    (hplace : ∀ x ∈ [l.low, l.high], ∀ y ∈ [r.low, r.high], (op.onFloats x y).isNaN = false)
    (hlow : ∃ x ∈ [l.low, l.high], ∃ y ∈ [r.low, r.high], op.onFloats x y ≤ z)
    (hhigh : ∃ x ∈ [l.low, l.high], ∃ y ∈ [r.low, r.high], z ≤ op.onFloats x y) :
    (op.floatCorners l r).HasFloat z := by
  have hmem : ∀ x ∈ [l.low, l.high], ∀ y ∈ [r.low, r.high],
      op.onFloats x y ∈ [op.onFloats l.low r.low, op.onFloats l.low r.high,
        op.onFloats l.high r.low, op.onFloats l.high r.high] := by
    simp
  obtain ⟨x, hx, y, hy, hlow⟩ := hlow
  obtain ⟨x', hx', y', hy', hhigh⟩ := hhigh
  have hxy := hmem x hx y hy
  have hxy' := hmem x' hx' y' hy'
  have hnumbers : ∀ corner ∈ [op.onFloats l.low r.low, op.onFloats l.low r.high,
      op.onFloats l.high r.low, op.onFloats l.high r.high], corner.isNaN = false := by
    simpa [and_assoc] using hplace
  unfold floatCorners
  generalize [op.onFloats l.low r.low, op.onFloats l.low r.high,
    op.onFloats l.high r.low, op.onFloats l.high r.high] = corners at hxy hxy' hnumbers
  have hnone : corners.any Double.isNaN = false := List.any_eq_false.mpr (by simpa using hnumbers)
  have hself : ∀ corner ∈ corners, corner ≤ corner := fun corner hc =>
    Double.le_self (hnumbers corner hc)
  have hleast :=
    (Double.foldl_lesser_le (x := .infinite false) (Double.le_self rfl) hself).2 _ hxy
  have hgreatest :=
    (Double.le_foldl_greater (x := .infinite true) (Double.le_self rfl) hself).2 _ hxy'
  dsimp only
  rw [hnone]
  exact Value.hasFloat_floatsBetween (Double.le_trans hleast hlow) (Double.le_trans hhigh hgreatest)

theorem families_floatCorners : (op.floatCorners l r).families = [.float] := by
  unfold floatCorners
  dsimp only
  split
  · rfl
  · exact Value.families_floatsBetween _ _

end Floats

section Ints

variable {a b low high low' high' : Int32}

theorem le_and_le_of_mem_pair (h : low ≤ high) (ha : a ∈ [low, high]) : low ≤ a ∧ a ≤ high := by
  rcases List.mem_pair.mp ha with rfl | rfl
  · exact ⟨Int32.le_refl _, h⟩
  · exact ⟨h, Int32.le_refl _⟩

theorem ne_zero_of_sides (hdiv : op = div → 0 < low' ∨ high' < 0) (hb : low' ≤ b ∧ b ≤ high')
    (hop : op = div) : b ≠ 0 := by
  rintro rfl
  rcases hdiv hop with h | h
  · exact Int32.lt_irrefl (Int32.lt_of_lt_of_le h hb.1)
  · exact Int32.lt_irrefl (Int32.lt_of_le_of_lt hb.2 h)

-- Rounding keeps order, so a rounded result lies between rounded corners.
theorem hasFloat_floatCorners_ints {z : Double} (ha : low ≤ a ∧ a ≤ high)
    (hb : low' ≤ b ∧ b ≤ high') (hdiv : op = div → 0 < low' ∨ high' < 0)
    (hz : z.position? =
      some (Double.nearest (op.unrounded a.toInt b.toInt * Double.unitsPerOne))) :
    (op.floatCorners (.ints low high) (.ints low' high')).HasFloat z := by
  have hends := Int32.le_trans hb.1 hb.2
  have hcorner : ∀ x ∈ [low, high], ∀ y ∈ [low', high'],
      (op.onFloats (.ofInt x.toInt) (.ofInt y.toInt)).position? =
        some (Double.nearest (op.unrounded x.toInt y.toInt * Double.unitsPerOne)) := by
    intro x _ y hy
    refine op.position?_onFloats (Double.natAbs_toInt_lt x) (Double.natAbs_toInt_lt y)
      fun hop h0 => ?_
    exact ne_zero_of_sides hdiv (le_and_le_of_mem_pair hends hy) hop (Int32.toInt_inj.mp h0)
  have hunit : (0 : ℚ) ≤ Double.unitsPerOne := by positivity
  have hplace : ∀ x ∈ [low, high], ∀ y ∈ [low', high'],
      (op.onFloats (.ofInt x.toInt) (.ofInt y.toInt)).isNaN = false := by
    intro x hx y hy
    refine Bool.eq_false_iff.mpr fun hnan => ?_
    rw [← Double.position?_eq_none_iff, hcorner x hx y hy] at hnan
    cases hnan
  refine hasFloat_floatCorners (by simpa [OperandRange.low, OperandRange.high] using hplace) ?_ ?_
  · obtain ⟨x, hx, y, hy, hle⟩ := op.exists_corner_le ha hb hdiv
    exact ⟨_, List.mem_map_of_mem (f := fun n : Int32 => Double.ofInt n.toInt) hx,
      _, List.mem_map_of_mem (f := fun n : Int32 => Double.ofInt n.toInt) hy,
      Double.le_iff.mpr ⟨_, _, hcorner x hx y hy, hz,
        Double.nearest_le_nearest (mul_le_mul_of_nonneg_right hle hunit)⟩⟩
  · obtain ⟨x, hx, y, hy, hle⟩ := op.exists_le_corner ha hb hdiv
    exact ⟨_, List.mem_map_of_mem (f := fun n : Int32 => Double.ofInt n.toInt) hx,
      _, List.mem_map_of_mem (f := fun n : Int32 => Double.ofInt n.toInt) hy,
      Double.le_iff.mpr ⟨_, _, hz, hcorner x hx y hy,
        Double.nearest_le_nearest (mul_le_mul_of_nonneg_right hle hunit)⟩⟩

-- The extremes are results at corners and enclose the others.
theorem exists_intExtremes? (hop : op ≠ div) (low high low' high' : Int32) :
    ∃ least greatest,
      op.intExtremes? low.toInt high.toInt low'.toInt high'.toInt = some (least, greatest) ∧
      (∃ x ∈ [low, high], ∃ y ∈ [low', high'], op.onInts? x.toInt y.toInt = some least) ∧
      (∃ x ∈ [low, high], ∃ y ∈ [low', high'], op.onInts? x.toInt y.toInt = some greatest) ∧
      ∀ x ∈ [low, high], ∀ y ∈ [low', high'], ∃ k,
        op.onInts? x.toInt y.toInt = some k ∧ least ≤ k ∧ k ≤ greatest := by
  obtain ⟨ac, hac⟩ := exists_onInts? hop low.toInt low'.toInt
  obtain ⟨ad, had⟩ := exists_onInts? hop low.toInt high'.toInt
  obtain ⟨bc, hbc⟩ := exists_onInts? hop high.toInt low'.toInt
  obtain ⟨bd, hbd⟩ := exists_onInts? hop high.toInt high'.toInt
  have hmem : ∀ k, k = ac ∨ k = ad ∨ k = bc ∨ k = bd →
      ∃ x ∈ [low, high], ∃ y ∈ [low', high'], op.onInts? x.toInt y.toInt = some k := by
    rintro k (rfl | rfl | rfl | rfl)
    · exact ⟨low, by simp, low', by simp, hac⟩
    · exact ⟨low, by simp, high', by simp, had⟩
    · exact ⟨high, by simp, low', by simp, hbc⟩
    · exact ⟨high, by simp, high', by simp, hbd⟩
  refine ⟨min (min ac ad) (min bc bd), max (max ac ad) (max bc bd), ?_, hmem _ (by omega),
    hmem _ (by omega), ?_⟩
  · simp [intExtremes?, hop, hac, had, hbc, hbd]
  · simp only [List.forall_mem_cons, List.not_mem_nil, false_imp_iff, implies_true, and_true]
    exact ⟨⟨⟨ac, hac, by omega⟩, ⟨ad, had, by omega⟩⟩, ⟨bc, hbc, by omega⟩, ⟨bd, hbd, by omega⟩⟩

-- No result is below or above those at corners.
theorem onInts?_between_extremes (hop : op ≠ div) {least greatest : Int}
    (h : op.intExtremes? low.toInt high.toInt low'.toInt high'.toInt = some (least, greatest))
    (ha : low ≤ a ∧ a ≤ high) (hb : low' ≤ b ∧ b ≤ high') :
    ∃ k, op.onInts? a.toInt b.toInt = some k ∧ least ≤ k ∧ k ≤ greatest := by
  have hdiv : op = div → 0 < low' ∨ high' < 0 := fun h => absurd h hop
  obtain ⟨_, _, hextremes, -, -, hcorners⟩ := exists_intExtremes? hop low high low' high'
  rw [h, Option.some.injEq, Prod.mk.injEq] at hextremes
  obtain ⟨rfl, rfl⟩ := hextremes
  obtain ⟨k, hk⟩ := exists_onInts? hop a.toInt b.toInt
  refine ⟨k, hk, ?_, ?_⟩
  · obtain ⟨x, hx, y, hy, hle⟩ := op.exists_corner_le ha hb hdiv
    obtain ⟨j, hj, hlj, -⟩ := hcorners x hx y hy
    rw [← cast_of_onInts? hj, ← cast_of_onInts? hk, Int.cast_le] at hle
    exact Int.le_trans hlj hle
  · obtain ⟨x, hx, y, hy, hle⟩ := op.exists_le_corner ha hb hdiv
    obtain ⟨j, hj, -, hjg⟩ := hcorners x hx y hy
    rw [← cast_of_onInts? hj, ← cast_of_onInts? hk, Int.cast_le] at hle
    exact Int.le_trans hle hjg

-- If the extremes are 32-bit integers, so is every result, and it lies between them.
theorem describes_of_intCorners? {v : Value} (h : op.intCorners? low high low' high' = some v)
    (ha : low ≤ a ∧ a ≤ high) (hb : low' ≤ b ∧ b ≤ high') :
    ∃ n, op.intResult a b = .int n ∧ v.Describes (.int n) := by
  have hop : op ≠ div := by
    rintro rfl
    cases h
  obtain ⟨least, greatest, hextremes, -⟩ := exists_intExtremes? hop low high low' high'
  simp only [intCorners?, hextremes, Option.bind_eq_bind, Option.bind_some,
    Option.bind_eq_some_iff] at h
  obtain ⟨bottom, hbottom, top, htop, hv⟩ := h
  obtain ⟨k, hk, hleast, hgreatest⟩ := onInts?_between_extremes hop hextremes ha hb
  obtain ⟨n, hn, hlow, hhigh⟩ := exists_int32?_between hbottom htop hleast hgreatest
  refine ⟨n, by simp only [intResult, hk, Option.bind_some, hn, Option.elim_some], ?_⟩
  rw [← Option.some.inj hv]
  exact Value.describes_intsBetween hlow hhigh

-- If an extreme is none, the result at that corner is a float.
theorem exists_float_of_intCorners? (hop : op ≠ div)
    (h : op.intCorners? low high low' high' = none) :
    ∃ x ∈ [low, high], ∃ y ∈ [low', high'], ∃ z, op.intResult x y = .float z := by
  have hfloat : ∀ {x y : Int32} {k : Int}, op.onInts? x.toInt y.toInt = some k →
      int32? k = none → ∃ z, op.intResult x y = .float z := by
    intro x y k hk hnone
    simp [intResult, hk, hnone]
  obtain ⟨least, greatest, hextremes, ⟨x, hx, y, hy, hl⟩, ⟨x', hx', y', hy', hg⟩, -⟩ :=
    exists_intExtremes? hop low high low' high'
  simp only [intCorners?, hextremes, Option.bind_eq_bind, Option.bind_some] at h
  cases hbottom : int32? least with
  | none => exact ⟨x, hx, y, hy, hfloat hl hbottom⟩
  | some bottom =>
    cases htop : int32? greatest with
    | none => exact ⟨x', hx', y', hy', hfloat hg htop⟩
    | some top =>
      rw [hbottom, htop] at h
      cases h

-- Some result of two ranges is a float.
def Promotes (op : ArithmeticOp) (low high low' high' : Int32) : Prop :=
  ∃ x y z, (low ≤ x ∧ x ≤ high) ∧ (low' ≤ y ∧ y ≤ high') ∧ op.intResult x y = .float z

-- Then all are taken for floats, and quotients always.
theorem intCorners?_eq_none_iff (ha : low ≤ high) (hb : low' ≤ high') :
    op.intCorners? low high low' high' = none ↔ op = div ∨ op.Promotes low high low' high' := by
  constructor
  · intro h
    by_cases hop : op = div
    · exact .inl hop
    · obtain ⟨x, hx, y, hy, z, hz⟩ := exists_float_of_intCorners? hop h
      exact .inr ⟨x, y, z, le_and_le_of_mem_pair ha hx, le_and_le_of_mem_pair hb hy, hz⟩
  · rintro (rfl | ⟨x, y, z, hx, hy, hz⟩)
    · rfl
    · refine Option.eq_none_iff_forall_ne_some.mpr fun v hv => ?_
      obtain ⟨n, hn, -⟩ := describes_of_intCorners? hv hx hy
      rw [hn] at hz
      cases hz

theorem position?_ofInt_nearest {n : Int32} {q : ℚ} (h : (n.toInt : ℚ) = q) :
    (Double.ofInt n.toInt).position? = some (Double.nearest (q * Double.unitsPerOne)) := by
  have hn := Double.natAbs_toInt_lt n
  rw [Double.position?_ofInt hn, ← h,
    ← Double.nearest_of_representable (representable_natAbs_mul hn)]
  push_cast
  rfl

-- The result of two ranges bounds the result of any of their members, and stands for it unless this
-- is a lost integer.
theorem bounds_rangeResult (op : ArithmeticOp) (ha : low ≤ a ∧ a ≤ high) (hb : low' ≤ b ∧ b ≤ high')
    (hdiv : op = div → 0 < low' ∨ high' < 0) :
    (op.rangeResult (.ints low high) (.ints low' high')).Bounds (op.intResult a b) ∧
      (¬(op.rangeResult (.ints low high) (.ints low' high')).Describes (op.intResult a b) ↔
        (∃ n, op.intResult a b = .int n) ∧ (op = div ∨ op.Promotes low high low' high')) := by
  rw [← intCorners?_eq_none_iff (Int32.le_trans ha.1 ha.2) (Int32.le_trans hb.1 hb.2)]
  simp only [rangeResult]
  cases hcorners : op.intCorners? low high low' high' with
  | some v =>
    obtain ⟨n, hn, hv⟩ := describes_of_intCorners? hcorners ha hb
    rw [hn]
    exact ⟨.inl hv, by simp [hv]⟩
  | none =>
    simp only [Option.getD_none, and_true]
    rcases op.intResult_cases (ne_zero_of_sides hdiv hb) with ⟨n, hn, hq⟩ | ⟨x, p, hx, hp, hq, h0⟩
    · have hlost := Value.not_describes_int (op.families_floatCorners (l := .ints low high)
        (r := .ints low' high')) n
      have hfloat := hasFloat_floatCorners_ints ha hb hdiv (position?_ofInt_nearest hq)
      rw [hn]
      exact ⟨.inr ⟨n, rfl, hfloat⟩, by simp [hlost]⟩
    · have hfloat := hasFloat_floatCorners_ints ha hb hdiv (hq ▸ hp)
      have hdescribes := Value.describes_of_admits (Value.admits_of_hasFloat hfloat) hp h0
      rw [hx]
      exact ⟨.inl hdescribes, by simp [hdescribes]⟩

end Ints

end ArithmeticOp

end AbsEval
