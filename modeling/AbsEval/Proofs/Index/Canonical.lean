import AbsEval.Index
import Mathlib.Tactic.Common
import Mathlib.Tactic.IntervalCases

namespace AbsEval

theorem int32?_toInt (n : Int32) : int32? n.toInt = some n :=
  word?_toInt n

-- No number but zero begins with a zero.
theorem exists_toDigits {m : Nat} (h : 0 < m) : ∃ d ds, Nat.toDigits 10 m = d :: ds ∧ d ≠ '0' := by
  induction m using Nat.strongRecOn with
  | ind m ih =>
    by_cases hlt : m < 10
    · refine ⟨m.digitChar, [], Nat.toDigits_of_lt_base hlt, ?_⟩
      interval_cases m <;> decide
    · obtain ⟨d, ds, hd, hne⟩ := ih (m / 10) (by omega) (by omega)
      exact ⟨d, ds ++ [(m % 10).digitChar],
        by rw [Nat.toDigits_of_base_le (by decide) (by omega), hd, List.cons_append], hne⟩

theorem all_isDigit_toDigits (m : Nat) : (Nat.toDigits 10 m).all Char.isDigit :=
  List.all_eq_true.mpr fun _ => Nat.isDigit_of_mem_toDigits (by decide) (by decide)

theorem exists_digitChar {c : Char} (h : c.isDigit) : ∃ k < 10, k.digitChar = c := by
  have hbounds : 48 ≤ c.toNat ∧ c.toNat ≤ 57 := Char.isDigit_iff_toNat.mp h
  have hlt : c.toNat - 48 < 10 := by omega
  refine ⟨c.toNat - 48, hlt, Char.toNat_inj.mp ?_⟩
  rw [Nat.toNat_digitChar_of_lt_ten hlt]
  omega

-- Digits read after a number are written after its digits.
theorem toDigits_ofDigitChars {ds : List Char} (h : ∀ c ∈ ds, c.isDigit) {m : Nat} (hm : 0 < m) :
    Nat.toDigits 10 (Nat.ofDigitChars 10 ds m) = Nat.toDigits 10 m ++ ds := by
  induction ds generalizing m with
  | nil => simp
  | cons d ds ih =>
    obtain ⟨hd, hds⟩ := List.forall_mem_cons.mp h
    obtain ⟨k, hk, rfl⟩ := exists_digitChar hd
    rw [Nat.ofDigitChars_cons_digitChar_of_lt_ten hk, ih hds (by omega),
      ← Nat.toDigits_append_toDigits (by decide) hm hk, Nat.toDigits_of_lt_base hk,
      List.append_assoc, List.singleton_append]

-- Digits are written as they were read if there is no zero in front.
theorem toDigits_ofDigits {d : Char} {ds : List Char} (hd : d ≠ '0')
    (hall : ∀ c ∈ d :: ds, c.isDigit) : Nat.toDigits 10 (ofDigits (d :: ds)) = d :: ds := by
  obtain ⟨hdigit, hds⟩ := List.forall_mem_cons.mp hall
  obtain ⟨k, hk, rfl⟩ := exists_digitChar hdigit
  have hpos : 0 < k := Nat.pos_of_ne_zero fun h => hd (Nat.digitChar_eq_zero.mpr h)
  rw [ofDigits, Nat.ofDigitChars_cons_digitChar_of_lt_ten hk, Nat.mul_zero, Nat.zero_add,
    toDigits_ofDigitChars hds hpos, Nat.toDigits_of_lt_base hk, List.singleton_append]

theorem toList_integerText (n : Int) :
    (integerText n).toList = (if n < 0 then ['-'] else []) ++ Nat.toDigits 10 n.natAbs := by
  simp [integerText]

theorem canonicalInt?_of_digits (negative : Bool) {text : String} {d : Char} {ds : List Char}
    (h : text.toList = (if negative then ['-'] else []) ++ d :: ds) (hd : d ≠ '0')
    (hall : (d :: ds).all Char.isDigit) :
    canonicalInt? text = int32? (withSign negative (ofDigits (d :: ds))) := by
  have hminus : d ≠ '-' := by
    rintro rfl
    simp at hall
  unfold canonicalInt?
  rw [h]
  cases negative <;> simp [hd, hminus, hall]

-- An integer is spelled as it is written.
theorem canonicalInt?_integerText (n : Int32) : canonicalInt? (integerText n.toInt) = some n := by
  have htext := toList_integerText n.toInt
  by_cases hzero : n.toInt.natAbs = 0
  · obtain rfl : n = 0 := Int32.toInt_inj.mp (Int.natAbs_eq_zero.mp hzero)
    decide +kernel
  · obtain ⟨d, ds, hdigits, hd⟩ := exists_toDigits (Nat.pos_of_ne_zero hzero)
    have hall := all_isDigit_toDigits n.toInt.natAbs
    have hvalue : ofDigits (d :: ds) = n.toInt.natAbs := by
      rw [← hdigits, ofDigits, Nat.ofDigitChars_ten_toDigits]
    have hsign : withSign (decide (n.toInt < 0)) n.toInt.natAbs = n.toInt := by
      simp only [withSign, decide_eq_true_eq]
      omega
    rw [hdigits] at htext hall
    rw [canonicalInt?_of_digits (decide (n.toInt < 0)) (by simpa using htext) hd hall, hvalue,
      hsign, int32?_toInt]

-- What is taken for an integer is a zero, or digits that begin with another digit, maybe signed.
theorem cases_of_canonicalInt? {text : String} {n : Int32} (h : canonicalInt? text = some n) :
    text.toList = ['0'] ∧ n = 0 ∨
      ∃ (negative : Bool) (d : Char) (ds : List Char),
        text.toList = (if negative then ['-'] else []) ++ d :: ds ∧ d ≠ '0' ∧
          (d :: ds).all Char.isDigit := by
  unfold canonicalInt? at h
  generalize text.toList = cs at h ⊢
  split at h
  next negative digits hsign =>
  have hcs : cs = (if negative then ['-'] else []) ++ digits := by
    split at hsign <;> cases hsign <;> rfl
  split at h
  · cases negative with
    | false =>
      cases h
      exact .inl ⟨hcs, rfl⟩
    | true => cases h
  · next d ds _ =>
    split at h
    · next hdigits =>
      simp only [Bool.and_eq_true, decide_eq_true_eq] at hdigits
      exact .inr ⟨negative, d, ds, hcs, hdigits⟩
    · cases h
  · cases h

theorem toList_integerText_withSign (negative : Bool) {m : Nat} (hm : 0 < m) :
    (integerText (withSign negative m)).toList =
      (if negative then ['-'] else []) ++ Nat.toDigits 10 m := by
  rw [toList_integerText]
  cases negative with
  | false => simp [withSign]
  | true => simp [withSign, hm]

-- A text is taken for an integer just if it is the one in which the integer is written.
theorem canonicalInt?_eq_some_iff {text : String} {n : Int32} :
    canonicalInt? text = some n ↔ text = integerText n.toInt := by
  constructor
  · intro h
    apply String.toList_injective
    rcases cases_of_canonicalInt? h with ⟨htext, rfl⟩ | ⟨negative, d, ds, htext, hd, hall⟩
    · rw [htext]
      decide
    · rw [canonicalInt?_of_digits negative htext hd hall] at h
      have hdigits := toDigits_ofDigits hd (List.all_eq_true.mp hall)
      have hpos : 0 < ofDigits (d :: ds) := by
        refine Nat.pos_of_ne_zero fun hzero => hd ?_
        rw [hzero, Nat.toDigits_zero] at hdigits
        exact (List.cons.inj hdigits).1.symm
      rw [toInt_of_int32?_eq_some h, toList_integerText_withSign negative hpos, hdigits, htext]
  · rintro rfl
    exact canonicalInt?_integerText n

theorem integerText_inj {m n : Int32} (h : integerText m.toInt = integerText n.toInt) : m = n := by
  have hm := canonicalInt?_integerText m
  rw [h, canonicalInt?_integerText] at hm
  exact (Option.some.inj hm).symm

end AbsEval
