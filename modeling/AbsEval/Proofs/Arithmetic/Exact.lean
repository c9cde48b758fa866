import AbsEval.Operation.Arithmetic
import AbsEval.Proofs.Double.Rounding

namespace AbsEval.ArithmeticOp

-- The result without rounding.
def unrounded (op : ArithmeticOp) (a b : ℚ) : ℚ :=
  match op with
  | add => a + b
  | sub => a - b
  | mul => a * b
  | div => a / b

theorem representable_natAbs_mul {n : Int} (h : n.natAbs < 2 ^ 53) :
    Double.Representable (n * Double.unitsPerOne).natAbs := by
  rw [Int.natAbs_mul, Int.natAbs_natCast]
  exact Double.representable_mul_unitsPerOne h

-- On floats the exact result is rounded once.
theorem position?_onFloats (op : ArithmeticOp) {a b : Int} (ha : a.natAbs < 2 ^ 53)
    (hb : b.natAbs < 2 ^ 53) (hdiv : op = div → b ≠ 0) :
    (op.onFloats (.ofInt a) (.ofInt b)).position? =
      some (Double.nearest (op.unrounded a b * Double.unitsPerOne)) := by
  have hx := Double.position?_ofInt ha
  have hy := Double.position?_ofInt hb
  have hx' := (representable_natAbs_mul ha).1
  have hy' := (representable_natAbs_mul hb).1
  have hunit : (Double.unitsPerOne : ℚ) ≠ 0 := by
    exact_mod_cast Double.unitsPerOne_pos.ne'
  cases op with
  | add =>
    simp only [onFloats, unrounded]
    rw [Double.position?_add hx hy hx' hy']
    push_cast
    ring_nf
  | sub =>
    simp only [onFloats, unrounded]
    rw [show Double.ofInt a - Double.ofInt b = Double.ofInt a + -Double.ofInt b from rfl,
      Double.position?_add hx (Double.position?_neg hy) hx' (by rwa [Int.natAbs_neg])]
    push_cast
    ring_nf
  | mul =>
    simp only [onFloats, unrounded]
    rw [Double.position?_mul hx hy hx' hy']
    push_cast
    field_simp
  | div =>
    have hb0 : b ≠ 0 := hdiv rfl
    simp only [onFloats, unrounded]
    rw [Double.position?_div hx hy hx' hy'
      (Int.mul_ne_zero hb0 (by exact_mod_cast Double.unitsPerOne_pos.ne'))]
    push_cast
    field_simp

section Corners

-- In each argument the results rise or fall throughout.

theorem unrounded_left (op : ArithmeticOp) (b : ℚ) :
    (Monotone fun a => op.unrounded a b) ∨ (Antitone fun a => op.unrounded a b) := by
  cases op with
  | add => exact .inl fun a a' h => add_le_add_left h b
  | sub => exact .inl fun a a' h => sub_le_sub_right h b
  | mul =>
    rcases le_total 0 b with hb | hb
    · exact .inl fun a a' h => mul_le_mul_of_nonneg_right h hb
    · exact .inr fun a a' h => mul_le_mul_of_nonpos_right h hb
  | div =>
    rcases le_total 0 b with hb | hb
    · exact .inl fun a a' h => div_le_div_of_nonneg_right h hb
    · exact .inr fun a a' h => div_le_div_of_nonpos_of_le hb h

theorem antitoneOn_inv {low high : ℚ} (h : 0 < low ∨ high < 0) :
    AntitoneOn (fun b : ℚ => b⁻¹) (Set.Icc low high) := by
  intro b hb b' hb' hle
  rcases h with hpos | hneg
  · exact inv_anti₀ (hpos.trans_le hb.1) hle
  · exact (inv_le_inv_of_neg (hb'.2.trans_lt hneg) (hb.2.trans_lt hneg)).mpr hle

theorem unrounded_right (op : ArithmeticOp) (a : ℚ) {low high : ℚ}
    (hdiv : op = div → 0 < low ∨ high < 0) :
    MonotoneOn (op.unrounded a) (Set.Icc low high) ∨
      AntitoneOn (op.unrounded a) (Set.Icc low high) := by
  cases op with
  | add => exact .inl fun b _ b' _ h => add_le_add_right h a
  | sub => exact .inr fun b _ b' _ h => sub_le_sub_left h a
  | mul =>
    rcases le_total 0 a with ha | ha
    · exact .inl fun b _ b' _ h => mul_le_mul_of_nonneg_left h ha
    · exact .inr fun b _ b' _ h => mul_le_mul_of_nonpos_left h ha
  | div =>
    have hinv := antitoneOn_inv (hdiv rfl)
    rcases le_total 0 a with ha | ha
    · refine .inr fun b hb b' hb' h => ?_
      simp only [unrounded, div_eq_mul_inv]
      exact mul_le_mul_of_nonneg_left (hinv hb hb' h) ha
    · refine .inl fun b hb b' hb' h => ?_
      simp only [unrounded, div_eq_mul_inv]
      exact mul_le_mul_of_nonpos_left (hinv hb hb' h) ha

variable {a b low high low' high' : Int32}

theorem mem_Icc_of_le (hlow : low ≤ a) (hhigh : a ≤ high) :
    (a.toInt : ℚ) ∈ Set.Icc (low.toInt : ℚ) high.toInt :=
  ⟨Int.cast_le.mpr (Int32.le_iff_toInt_le.mp hlow),
    Int.cast_le.mpr (Int32.le_iff_toInt_le.mp hhigh)⟩

theorem sides_of_lt (h : 0 < low ∨ high < 0) : 0 < (low.toInt : ℚ) ∨ (high.toInt : ℚ) < 0 :=
  h.imp (fun h => Int.cast_pos.mpr (by simpa using Int32.lt_iff_toInt_lt.mp h))
    (fun h => Int.cast_lt_zero.mpr (by simpa using Int32.lt_iff_toInt_lt.mp h))

-- So the least and the greatest result are at corners.

theorem exists_corner_le (op : ArithmeticOp) (ha : low ≤ a ∧ a ≤ high) (hb : low' ≤ b ∧ b ≤ high')
    (hdiv : op = div → 0 < low' ∨ high' < 0) :
    ∃ x ∈ [low, high], ∃ y ∈ [low', high'],
      op.unrounded x.toInt y.toInt ≤ op.unrounded a.toInt b.toInt := by
  have ha' := mem_Icc_of_le ha.1 ha.2
  obtain ⟨x, hx, hxb⟩ : ∃ x ∈ [low, high],
      op.unrounded x.toInt b.toInt ≤ op.unrounded a.toInt b.toInt := by
    rcases op.unrounded_left b.toInt with h | h
    · exact ⟨low, by simp, h ha'.1⟩
    · exact ⟨high, by simp, h ha'.2⟩
  have hb' := mem_Icc_of_le hb.1 hb.2
  have hends := hb'.1.trans hb'.2
  rcases op.unrounded_right x.toInt fun hop => sides_of_lt (hdiv hop) with h | h
  · exact ⟨x, hx, low', by simp, (h ⟨le_rfl, hends⟩ hb' hb'.1).trans hxb⟩
  · exact ⟨x, hx, high', by simp, (h hb' ⟨hends, le_rfl⟩ hb'.2).trans hxb⟩

theorem exists_le_corner (op : ArithmeticOp) (ha : low ≤ a ∧ a ≤ high) (hb : low' ≤ b ∧ b ≤ high')
    (hdiv : op = div → 0 < low' ∨ high' < 0) :
    ∃ x ∈ [low, high], ∃ y ∈ [low', high'],
      op.unrounded a.toInt b.toInt ≤ op.unrounded x.toInt y.toInt := by
  have ha' := mem_Icc_of_le ha.1 ha.2
  obtain ⟨x, hx, hxb⟩ : ∃ x ∈ [low, high],
      op.unrounded a.toInt b.toInt ≤ op.unrounded x.toInt b.toInt := by
    rcases op.unrounded_left b.toInt with h | h
    · exact ⟨high, by simp, h ha'.2⟩
    · exact ⟨low, by simp, h ha'.1⟩
  have hb' := mem_Icc_of_le hb.1 hb.2
  have hends := hb'.1.trans hb'.2
  rcases op.unrounded_right x.toInt fun hop => sides_of_lt (hdiv hop) with h | h
  · exact ⟨x, hx, high', by simp, hxb.trans (h hb' ⟨hends, le_rfl⟩ hb'.2)⟩
  · exact ⟨x, hx, low', by simp, hxb.trans (h ⟨le_rfl, hends⟩ hb' hb'.1)⟩

end Corners

section Results

variable {op : ArithmeticOp} {a b : Int32}

-- An integer result is not rounded.
theorem cast_of_onInts? {m n k : Int} (h : op.onInts? m n = some k) :
    (k : ℚ) = op.unrounded m n := by
  cases op with
  | add | sub | mul =>
    obtain rfl := Option.some.inj h
    simp [unrounded]
  | div =>
    simp only [onInts?] at h
    split at h
    · next hdvd =>
      obtain rfl := Option.some.inj h
      simp only [unrounded]
      rw [Int.cast_div hdvd.2 (by exact_mod_cast hdvd.1)]
    · cases h

theorem exists_onInts? (h : op ≠ div) (m n : Int) : ∃ k, op.onInts? m n = some k := by
  cases op with
  | add | sub | mul => exact ⟨_, rfl⟩
  | div => exact absurd rfl h

theorem isConcrete_intResult (op : ArithmeticOp) (a b : Int32) : (op.intResult a b).isConcrete := by
  unfold intResult
  cases (op.onInts? a.toInt b.toInt).bind int32? <;> rfl

theorem int32?_zero : int32? 0 = some 0 := by
  decide

-- What is no 32-bit integer is too large for one, or no integer and then a quotient of 32-bit ones.
-- In both cases it is not close to zero.
theorem le_abs_unrounded (hdiv : op = div → b ≠ 0)
    (h : (op.onInts? a.toInt b.toInt).bind int32? = none) :
    (1 : ℚ) / 2 ^ 31 ≤ |op.unrounded a.toInt b.toInt| := by
  by_cases hop : op = div
  · subst hop
    have hb : b.toInt ≠ 0 := fun h0 => hdiv rfl (Int32.toInt_inj.mp h0)
    have ha : a.toInt ≠ 0 := by
      intro h0
      simp [onInts?, h0, hb, int32?_zero] at h
    have ha' : (1 : ℚ) ≤ |(a.toInt : ℚ)| := by exact_mod_cast Int.one_le_abs ha
    have hb' : |(b.toInt : ℚ)| ≤ 2 ^ 31 := by
      rw [← Int.cast_abs, Int.abs_eq_natAbs]
      exact_mod_cast Double.natAbs_toInt_le b
    have hpos : 0 < |(b.toInt : ℚ)| := abs_pos.mpr (by exact_mod_cast hb)
    simp only [unrounded, abs_div]
    exact div_le_div₀ (by linarith) ha' hpos hb'
  · obtain ⟨k, hk⟩ := exists_onInts? hop a.toInt b.toInt
    rw [hk, Option.bind_some, int32?_eq_none_iff] at h
    have hk' : (1 : ℚ) ≤ |(k : ℚ)| := by exact_mod_cast Int.one_le_abs (by omega : k ≠ 0)
    rw [← cast_of_onInts? hk]
    linarith

-- A result is an integer and exact, or it is rounded and not to zero.
theorem intResult_cases (op : ArithmeticOp) (hdiv : op = div → b ≠ 0) :
    (∃ n, op.intResult a b = .int n ∧ (n.toInt : ℚ) = op.unrounded a.toInt b.toInt) ∨
      ∃ x p, op.intResult a b = .float x ∧ x.position? = some p ∧
        p = Double.nearest (op.unrounded a.toInt b.toInt * Double.unitsPerOne) ∧ p ≠ 0 := by
  unfold intResult
  cases h : (op.onInts? a.toInt b.toInt).bind int32? with
  | some n =>
    obtain ⟨k, hk, hn⟩ := Option.bind_eq_some_iff.mp h
    exact .inl ⟨n, rfl, by rw [toInt_of_int32?_eq_some hn, cast_of_onInts? hk]⟩
  | none =>
    have hfloat := op.position?_onFloats (Double.natAbs_toInt_lt a) (Double.natAbs_toInt_lt b)
      fun hop h0 => hdiv hop (Int32.toInt_inj.mp h0)
    refine .inr ⟨_, _, rfl, hfloat, rfl, Double.nearest_ne_zero ?_⟩
    have hunit : (2 : ℚ) ^ 31 ≤ Double.unitsPerOne := by
      exact_mod_cast (by decide +kernel : 2 ^ 31 ≤ Double.unitsPerOne)
    have hle := le_abs_unrounded hdiv h
    rw [abs_mul, abs_of_nonneg (by positivity : (0 : ℚ) ≤ Double.unitsPerOne)]
    calc (1 : ℚ) = 1 / 2 ^ 31 * 2 ^ 31 := by norm_num
      _ ≤ _ := mul_le_mul hle hunit (by positivity) (abs_nonneg _)

end Results

end AbsEval.ArithmeticOp
