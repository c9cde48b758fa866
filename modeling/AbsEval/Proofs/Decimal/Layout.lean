import AbsEval.Proofs.Decimal.Rounding
import AbsEval.Proofs.Index.Canonical
import AbsEval.Proofs.Numeral.Value

namespace AbsEval

-- Digits without zeros at either end.
structure Significant (ds : List Char) : Prop where
  isDigit : ∀ c ∈ ds, c.isDigit
  first : ∃ c ∈ ds.head?, c ≠ '0'
  last : ∃ c ∈ ds.getLast?, c ≠ '0'

-- A literal that writes a decimal number: with this sign and at least one digit before the point,
-- with no more than so many digits from the first one that is no zero on, and with no zero at the
-- end of a fraction.
structure Literal.Writes (places : Nat) (sign : Option Sign) (d : Decimal) (l : Literal) : Prop where
  wellFormed : l.WellFormed
  sign_eq : l.sign = sign
  whole_ne_nil : l.whole ≠ []
  value : l.decimal.toRat = d.toRat
  significant : (l.digits.dropWhile (· == '0')).length ≤ places
  trimmed : ∀ ds ∈ l.fraction, ∃ c ∈ ds.getLast?, c ≠ '0'

namespace Significant

variable {ds : List Char}

theorem ne_nil (h : Significant ds) : ds ≠ [] := by
  obtain ⟨c, hc, -⟩ := h.first
  exact List.ne_nil_of_mem (List.mem_of_mem_head? hc)

theorem dropWhile_zeros (h : Significant ds) (k : Nat) (rest : List Char) :
    (List.replicate k '0' ++ (ds ++ rest)).dropWhile (· == '0') = ds ++ rest := by
  rw [List.dropWhile_append_of_pos (by simp)]
  obtain ⟨c, hc, hne⟩ := h.first
  cases ds with
  | nil => cases hc
  | cons d ds =>
    obtain rfl : d = c := Option.mem_some_iff.mp hc
    simp [hne]

end Significant

theorem ofDigits_zeros (a b : Nat) (ds : List Char) :
    ofDigits (List.replicate a '0' ++ (ds ++ List.replicate b '0')) = ofDigits ds * 10 ^ b := by
  unfold ofDigits
  rw [Nat.ofDigitChars_append, Nat.ofDigitChars_append, Nat.ofDigitChars_replicate_zero,
    Nat.ofDigitChars_replicate_zero, Nat.mul_zero, Nat.mul_comm]

namespace Decimal

variable {d : Decimal} {places : Nat} {sign : Option Sign}

theorem exists_toDigits_eq (d : Decimal) :
    ∃ k, Nat.toDigits 10 d.significand = d.digits ++ List.replicate k '0' := by
  obtain ⟨zeros, hzeros, hsplit⟩ : ∃ zeros, (∀ c ∈ zeros, c = '0') ∧
      zeros ++ d.digits.reverse = (Nat.toDigits 10 d.significand).reverse := by
    refine ⟨(Nat.toDigits 10 d.significand).reverse.takeWhile (· == '0'),
      fun c hc => beq_iff_eq.mp (List.all_eq_true.mp List.all_takeWhile c hc), ?_⟩
    rw [digits, List.reverse_reverse, List.takeWhile_append_dropWhile]
  have hreplicate : zeros.reverse = List.replicate zeros.length '0' :=
    List.eq_replicate_iff.mpr
      ⟨List.length_reverse, fun c hc => hzeros c (List.mem_reverse.mp hc)⟩
  refine ⟨zeros.length, ?_⟩
  rw [← hreplicate, ← List.reverse_reverse (Nat.toDigits 10 d.significand), ← hsplit,
    List.reverse_append, List.reverse_reverse]

theorem significant_digits (h : 0 < d.significand) : Significant d.digits := by
  obtain ⟨k, hk⟩ := exists_toDigits_eq d
  obtain ⟨c, cs, hcons, hc⟩ := exists_toDigits h
  have hne : d.digits ≠ [] := by
    intro hnil
    rw [hnil, List.nil_append, hcons] at hk
    exact hc (List.eq_of_mem_replicate (hk ▸ List.mem_cons_self))
  constructor
  case isDigit =>
    intro x hx
    refine List.all_eq_true.mp (all_isDigit_toDigits d.significand) x ?_
    rw [hk]
    exact List.mem_append_left _ hx
  case first =>
    refine ⟨c, ?_, hc⟩
    have hhead := congrArg List.head? hk
    rw [hcons, List.head?_append_of_ne_nil _ hne] at hhead
    exact hhead.symm
  case last =>
    have hnot := List.head?_dropWhile_not (· == '0') (Nat.toDigits 10 d.significand).reverse
    cases hdrop : (Nat.toDigits 10 d.significand).reverse.dropWhile (· == '0') with
    | nil => exact absurd (congrArg List.reverse hdrop) hne
    | cons x xs =>
      rw [hdrop] at hnot
      refine ⟨x, ?_, by simpa using hnot⟩
      rw [digits, List.getLast?_reverse, hdrop]
      rfl

theorem toRat_eq_digits (d : Decimal) :
    d.toRat = ofDigits d.digits * 10 ^ (d.point - d.digits.length) := by
  obtain ⟨k, hk⟩ := exists_toDigits_eq d
  have hvalue : d.significand = ofDigits d.digits * 10 ^ k := by
    have hzeros := ofDigits_zeros 0 k d.digits
    rw [List.replicate_zero, List.nil_append, ← hk] at hzeros
    rw [← hzeros]
    exact Nat.ofDigitChars_ten_toDigits.symm
  have hpoint : d.point - d.digits.length = k + d.exponent := by
    rw [point, hk, List.length_append, List.length_replicate]
    push_cast
    ring
  rw [toRat, hpoint, zpow_add₀ (by norm_num), zpow_natCast, ← mul_assoc]
  exact_mod_cast congrArg (fun n : Nat => (n : ℚ) * 10 ^ d.exponent) hvalue

-- A literal writes a number if its digits are those of the number, with zeros around them, and its
-- exponent says where the point is. A fraction ends with the last of them.
theorem writes_of_digits {l : Literal} {a b : Nat} (h : 0 < d.significand) (hsign : l.sign = sign)
    (hdigits : l.digits = List.replicate a '0' ++ (d.digits ++ List.replicate b '0'))
    (hexponent : l.decimal.exponent = d.point - d.digits.length - b)
    (hlength : d.digits.length + b ≤ places) (hwhole : l.whole ≠ [])
    (hpart : ∀ part ∈ l.exponent, part.WellFormed)
    (hlast : ∀ ds ∈ l.fraction, ds.getLast? = d.digits.getLast?) :
    l.Writes places sign d := by
  have hsignificant := significant_digits h
  have hall : ∀ c ∈ l.digits, c.isDigit := by
    intro c hc
    rw [hdigits] at hc
    rcases List.mem_append.mp hc with hc | hc
    · rw [List.eq_of_mem_replicate hc]
      rfl
    · rcases List.mem_append.mp hc with hc | hc
      · exact hsignificant.isDigit c hc
      · rw [List.eq_of_mem_replicate hc]
        rfl
  refine ⟨⟨?_, ?_, hpart, ?_⟩, hsign, hwhole, ?_, ?_, ?_⟩
  · exact fun c hc => hall c (List.mem_append_left _ hc)
  · intro ds hds c hc
    refine hall c (List.mem_append_right _ ?_)
    rw [Option.mem_def.mp hds]
    exact hc
  · exact List.append_ne_nil_of_left_ne_nil hwhole _
  · have hsignificand : l.decimal.significand = ofDigits d.digits * 10 ^ b := by
      rw [← ofDigits_zeros a b, ← hdigits]
      rfl
    rw [toRat_eq_digits d, toRat, hsignificand, hexponent, zpow_sub₀ (by norm_num), zpow_natCast]
    push_cast
    field_simp
  · rw [hdigits, hsignificant.dropWhile_zeros, List.length_append, List.length_replicate]
    exact hlength
  · intro ds hds
    rw [hlast ds hds]
    exact hsignificant.last

-- Positional notation has its point in front of the digits, behind them, or among them.
theorem exists_writes_positional (sign : Option Sign) (h : 0 < d.significand)
    (hlength : d.digits.length ≤ places) (hpoint : d.point ≤ places) :
    ∃ l : Literal, l.Writes places sign d ∧ l.exponent = none ∧
      l.spelling = Sign.spelling sign ++ (d.positional "").toList := by
  have hne := (significant_digits h).ne_nil
  unfold positional
  dsimp only
  split
  · next hfront =>
    refine ⟨⟨sign, ['0'], some (List.replicate (-d.point).toNat '0' ++ d.digits), none⟩,
      writes_of_digits (a := (-d.point).toNat + 1) (b := 0) h rfl ?_ ?_ ?_ ?_ ?_ ?_, rfl, ?_⟩
    · simp [Literal.digits, List.replicate_succ]
    · simp only [Literal.decimal, Option.map_none, Option.getD_none, Option.getD_some,
        List.length_append, List.length_replicate]
      omega
    · exact hlength
    · exact List.cons_ne_nil _ _
    · simp
    · intro ds hds
      obtain rfl := Option.mem_some_iff.mp hds
      exact List.getLast?_append_of_ne_nil _ hne
    · simp [Literal.spelling, Literal.fractionSpelling, ExponentPart.spelling]
  · next hbehind =>
    split
    · next hle =>
      refine ⟨⟨sign, d.digits ++ List.replicate (d.point.toNat - d.digits.length) '0', none, none⟩,
        writes_of_digits (a := 0) (b := d.point.toNat - d.digits.length) h rfl ?_ ?_ ?_ ?_ ?_ ?_,
        rfl, ?_⟩
      · simp [Literal.digits]
      · simp only [Literal.decimal, Option.map_none, Option.getD_none, List.length_nil]
        omega
      · omega
      · exact List.append_ne_nil_of_left_ne_nil hne _
      · simp
      · simp
      · simp [Literal.spelling, Literal.fractionSpelling, ExponentPart.spelling]
    · next hlt =>
      refine ⟨⟨sign, d.digits.take d.point.toNat, some (d.digits.drop d.point.toNat), none⟩,
        writes_of_digits (a := 0) (b := 0) h rfl ?_ ?_ ?_ ?_ ?_ ?_, rfl, ?_⟩
      · simp [Literal.digits]
      · simp only [Literal.decimal, Option.map_none, Option.getD_none, Option.getD_some,
          List.length_drop]
        omega
      · exact hlength
      · rw [Ne, List.take_eq_nil_iff, not_or]
        exact ⟨by omega, hne⟩
      · simp
      · intro ds hds
        obtain rfl := Option.mem_some_iff.mp hds
        rw [List.getLast?_drop, if_neg (by omega)]
      · simp [Literal.spelling, Literal.fractionSpelling, ExponentPart.spelling]

-- Scientific notation has one digit before the point, and no point if it has no other.
theorem exists_writes_scientific (sign : Option Sign) (h : 0 < d.significand)
    (hlength : d.digits.length ≤ places) {exponentText : Int → String} {part : ExponentPart}
    (hpart : part.WellFormed) (hvalue : part.value = d.point - 1)
    (htext : (exponentText (d.point - 1)).toList = ExponentPart.spelling (some part)) :
    ∃ l : Literal, l.Writes places sign d ∧ l.exponent = some part ∧ l.whole.length = 1 ∧
      l.spelling = Sign.spelling sign ++ (d.scientific exponentText).toList := by
  obtain ⟨first, fraction, hcons⟩ := List.exists_cons_of_ne_nil (significant_digits h).ne_nil
  have hpart' : ∀ other ∈ some part, other.WellFormed := by simpa using hpart
  unfold scientific
  dsimp only
  rw [hcons, List.drop_one, List.tail_cons]
  cases fraction with
  | nil =>
    refine ⟨⟨sign, [first], none, some part⟩,
      writes_of_digits (a := 0) (b := 0) h rfl ?_ ?_ ?_ ?_ hpart' ?_, rfl, rfl, ?_⟩
    · simp [Literal.digits, hcons]
    · simp [Literal.decimal, hcons, hvalue]
    · exact hlength
    · exact List.cons_ne_nil _ _
    · simp
    · simp [Literal.spelling, Literal.fractionSpelling, htext]
  | cons second rest =>
    refine ⟨⟨sign, [first], some (second :: rest), some part⟩,
      writes_of_digits (a := 0) (b := 0) h rfl ?_ ?_ ?_ ?_ hpart' ?_, rfl, rfl, ?_⟩
    · simp [Literal.digits, hcons]
    · simp only [Literal.decimal, hcons, hvalue, Option.map_some, Option.getD_some,
        List.length_cons]
      push_cast
      ring
    · exact hlength
    · exact List.cons_ne_nil _ _
    · intro ds hds
      obtain rfl := Option.mem_some_iff.mp hds
      rw [hcons, List.getLast?_cons_cons]
    · simp [Literal.spelling, Literal.fractionSpelling, htext]

end Decimal

end AbsEval
