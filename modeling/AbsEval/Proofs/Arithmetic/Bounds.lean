import AbsEval.Proofs.Arithmetic.Promotion
import Mathlib.Order.Bounds.Basic

namespace AbsEval

-- What an operation comes to on members of two ranges, without a limit to its size.
def Interval.results (f : Int → Int → Int) (l r : Interval Int32) : Set Int :=
  {k | ∃ a b, l.contains a ∧ r.contains b ∧ k = f a.toInt b.toInt}

namespace Value

-- The integers that an operand is one of. A truth value counts as zero or one.
def integers? : Value → Option (Interval Int32)
  | int n => some ⟨n, n, Int32.le_refl n⟩
  | intRange range => some range
  | any .boolean => some ⟨0, 1, by decide⟩
  | any .integer => some .entire
  | _ => none

-- An integer or a range of integers, but not the kind of all.
def isBounded : Value → Bool
  | int _ | intRange _ => true
  | _ => false

theorem countsBetween_of_integers? {v : Value} {range : Interval Int32}
    (h : v.integers? = some range) : v.countsAsInt ∧ v.CountsBetween range.start range.stop := by
  cases v with
  | int n =>
    cases h
    exact ⟨rfl, countsBetween_of_single (fun _ => Iff.rfl) rfl⟩
  | intRange =>
    cases h
    exact ⟨rfl, countsBetween_intRange range⟩
  | any kind =>
    cases kind with
    | boolean =>
      cases h
      exact ⟨rfl, countsBetween_boolean⟩
    | integer =>
      cases h
      exact ⟨rfl, countsBetween_integer⟩
    | _ => cases h
  | _ => cases h

-- The integers between two ends, with these ends and as a single one if they are equal.

theorem isBounded_intsBetween {low high : Int32} (h : low ≤ high) :
    (intsBetween low high).isBounded := by
  rw [intsBetween_of_le h, normalized]
  split <;> rfl

theorem integers?_intsBetween {low high : Int32} (h : low ≤ high) :
    (intsBetween low high).integers? = some ⟨low, high, h⟩ := by
  rw [intsBetween_of_le h]
  rcases normalized_intRange ⟨low, high, h⟩ with ⟨hrange, hpoint⟩ | ⟨hrange, -⟩
  · obtain rfl : low = high := hpoint
    rw [hrange]
    rfl
  · rw [hrange]
    rfl

theorem not_isBounded_of_families {v : Value} (h : v.families = [.float]) :
    v.isBounded = false := by
  cases v with
  | int n | intRange range => cases h
  | _ => rfl

end Value

namespace ArithmeticOp

-- The operators whose results on integers are integers, and what they are.
inductive Computes : ArithmeticOp → (Int → Int → Int) → Prop where
  | add : Computes add (· + ·)
  | sub : Computes sub (· - ·)
  | mul : Computes mul (· * ·)

variable {op : ArithmeticOp} {f : Int → Int → Int}

theorem Computes.onInts? (h : op.Computes f) (a b : Int) : op.onInts? a b = some (f a b) := by
  cases h <;> rfl

theorem Computes.ne_div (h : op.Computes f) : op ≠ div := by
  cases h <;> decide

-- The extremes at the corners are the least and the greatest of all results.
theorem exists_isLeast_isGreatest (h : op.Computes f) (l r : Interval Int32) :
    ∃ least greatest,
      op.intExtremes? l.start.toInt l.stop.toInt r.start.toInt r.stop.toInt =
        some (least, greatest) ∧
      IsLeast (l.results f r) least ∧ IsGreatest (l.results f r) greatest := by
  obtain ⟨least, greatest, hextremes, hleast, hgreatest, -⟩ :=
    exists_intExtremes? h.ne_div l.start l.stop r.start r.stop
  have hcorner : ∀ k, (∃ x ∈ [l.start, l.stop], ∃ y ∈ [r.start, r.stop],
      op.onInts? x.toInt y.toInt = some k) → k ∈ l.results f r := by
    rintro k ⟨x, hx, y, hy, hk⟩
    rw [h.onInts?, Option.some.injEq] at hk
    exact ⟨x, y, Interval.contains_iff.mpr (le_and_le_of_mem_pair l.ordered hx),
      Interval.contains_iff.mpr (le_and_le_of_mem_pair r.ordered hy), hk.symm⟩
  have hbetween : ∀ k ∈ l.results f r, least ≤ k ∧ k ≤ greatest := by
    rintro k ⟨a, b, ha, hb, rfl⟩
    obtain ⟨k, hk, hle⟩ := onInts?_between_extremes h.ne_div hextremes
      (Interval.contains_iff.mp ha) (Interval.contains_iff.mp hb)
    rw [h.onInts?, Option.some.injEq] at hk
    rwa [hk]
  exact ⟨least, greatest, hextremes, ⟨hcorner _ hleast, fun k hk => (hbetween k hk).1⟩,
    ⟨hcorner _ hgreatest, fun k hk => (hbetween k hk).2⟩⟩

-- The result is what lies between the extremes, or a float if one of them is beyond 32 bits.
theorem result_onOperands_cases (h : op.Computes f) {l r : Interval Int32} {least greatest : Int}
    (hextremes : op.intExtremes? l.start.toInt l.stop.toInt r.start.toInt r.stop.toInt =
      some (least, greatest)) :
    (∃ bottom top, int32? least = some bottom ∧ int32? greatest = some top ∧
      (op.onOperands (.ofBounds l.start l.stop) (.ofBounds r.start r.stop)).result =
        .intsBetween bottom top) ∨
    (int32? least = none ∨ int32? greatest = none) ∧
      (op.onOperands (.ofBounds l.start l.stop) (.ofBounds r.start r.stop)).result.families =
        [.float] := by
  rw [result_onOperands, if_neg fun hdiv => h.ne_div hdiv.1]
  split
  · next hpoint =>
    -- All four corners are the one result.
    rw [← hpoint.1, ← hpoint.2, intExtremes?_self h.ne_div (h.onInts? _ _)] at hextremes
    cases hextremes
    rw [intResult, h.onInts?, Option.bind_some]
    cases hfits : int32? (f l.start.toInt r.start.toInt) with
    | some n => exact .inl ⟨n, n, rfl, rfl, (Value.intsBetween_self n).symm⟩
    | none => exact .inr ⟨.inl rfl, rfl⟩
  · simp only [rangeResult, intCorners?, hextremes, Option.bind_eq_bind, Option.bind_some]
    cases hbottom : int32? least with
    | none => exact .inr ⟨.inl rfl, families_floatCorners⟩
    | some bottom =>
      cases htop : int32? greatest with
      | none => exact .inr ⟨.inr rfl, families_floatCorners⟩
      | some top => exact .inl ⟨bottom, top, rfl, rfl, rfl⟩

end ArithmeticOp

namespace Eval

open ArithmeticOp

-- On ranges of integers the result is bounded just where all results are 32-bit integers, and its
-- ends are then the least and the greatest of them.
theorem integer_bounds_exact (options : Options) (state : State) {op : ArithmeticOp}
    {f : Int → Int → Int} {l r : Value} {ls rs : Interval Int32} (hop : op.Computes f)
    (hl : l.integers? = some ls) (hr : r.integers? = some rs) :
    ∃ v, ((binary l (.arithmetic op) r).run options state).1 = .ok v ∧
      (v.isBounded ↔ ∀ k ∈ ls.results f rs, -2 ^ 31 ≤ k ∧ k < 2 ^ 31) ∧
      (v.isBounded → ∃ bounds, v.integers? = some bounds ∧
        IsLeast (ls.results f rs) bounds.start.toInt ∧
        IsGreatest (ls.results f rs) bounds.stop.toInt ∧
        (bounds.start = bounds.stop → v = .int bounds.start)) := by
  obtain ⟨hlc, hlb⟩ := Value.countsBetween_of_integers? hl
  obtain ⟨hrc, hrb⟩ := Value.countsBetween_of_integers? hr
  have hrun := run_arithmetic options state op hlc hrc
  rw [hlb.operand, hrb.operand] at hrun
  obtain ⟨least, greatest, hextremes, hleast, hgreatest⟩ := exists_isLeast_isGreatest hop ls rs
  refine ⟨_, hrun, ?_⟩
  rcases result_onOperands_cases hop hextremes with
    ⟨bottom, top, hbottom, htop, hresult⟩ | ⟨hbeyond, hresult⟩
  · have hbottom' := toInt_of_int32?_eq_some hbottom
    have htop' := toInt_of_int32?_eq_some htop
    have hle : bottom ≤ top := by
      have hordered : least ≤ greatest := hleast.2 hgreatest.1
      rw [Int32.le_iff_toInt_le]
      omega
    rw [hresult]
    constructor
    · refine iff_of_true (Value.isBounded_intsBetween hle) fun k hk => ?_
      have hlow : least ≤ k := hleast.2 hk
      have hhigh : k ≤ greatest := hgreatest.2 hk
      have hbits := bottom.le_toInt
      have hbits' := top.toInt_lt
      omega
    · intro _
      refine ⟨_, Value.integers?_intsBetween hle, hbottom'.symm ▸ hleast,
        htop'.symm ▸ hgreatest, ?_⟩
      rintro (rfl : bottom = top)
      exact Value.intsBetween_self bottom
  · rw [Value.not_isBounded_of_families hresult]
    refine ⟨iff_of_false (by simp) fun hfits => ?_, by simp⟩
    have hlow := hfits least hleast.1
    have hhigh := hfits greatest hgreatest.1
    rw [int32?_eq_none_iff, int32?_eq_none_iff] at hbeyond
    omega

def acrossZero : Interval Int32 := ⟨-2, 3, by decide⟩

def aroundZero : Interval Int32 := ⟨-5, 4, by decide⟩

-- The least product is at one pair of ends and the greatest at another.
theorem integer_bounds_exact_acrossZero :
    ArithmeticOp.Computes .mul (· * ·) ∧ (Value.intRange acrossZero).integers? = some acrossZero ∧
      (Value.intRange aroundZero).integers? = some aroundZero ∧
      ((binary (.intRange acrossZero) (.arithmetic .mul) (.intRange aroundZero)).run
        {} .initial).1 = .ok (.intRange ⟨-15, 12, by decide⟩) ∧
      IsLeast (acrossZero.results (· * ·) aroundZero) (-15) ∧
      IsGreatest (acrossZero.results (· * ·) aroundZero) 12 := by
  have hrun : ((binary (.intRange acrossZero) (.arithmetic .mul) (.intRange aroundZero)).run
      {} .initial).1 = .ok (.intRange ⟨-15, 12, by decide⟩) := by
    decide +kernel
  obtain ⟨v, hv, -, hbounds⟩ := integer_bounds_exact {} .initial .mul
    (l := .intRange acrossZero) (r := .intRange aroundZero) rfl rfl
  obtain rfl := Except.ok.inj (hv.symm.trans hrun)
  obtain ⟨bounds, h, hleast, hgreatest, -⟩ := hbounds rfl
  cases h
  exact ⟨.mul, rfl, rfl, hrun, hleast, hgreatest⟩

end Eval

end AbsEval
