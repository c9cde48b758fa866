import AbsEval.Proofs.Literal.Keys
import AbsEval.Proofs.Numeral.Scanner
import AbsEval.Proofs.Store.Lookup
import Mathlib.Data.List.Infix

namespace AbsEval

namespace Grammar

variable {cs rest w : List Char} {r : RegularExpression Char}

-- What goes on with an integer in front of it: a digit, a point, or an exponent.
def continuation : RegularExpression Char :=
  oneOf ('.' :: digits) + oneOf ['e', 'E'] * (sign * oneOf digits)

-- What makes a hexadecimal number of a zero in front of it.
def hexContinuation : RegularExpression Char :=
  oneOf ['x', 'X'] * oneOf hexDigits

-- The text begins with no word of the expression.
def Avoids (cs : List Char) (r : RegularExpression Char) : Prop :=
  ∀ w ∈ r.matches', ¬w <+: cs

instance : Decidable (Avoids cs r) :=
  decidable_of_iff (∀ w ∈ cs.inits, w ∉ r.matches')
    ⟨fun h w hw hbegins => h w ((List.mem_inits w cs).mpr hbegins) hw,
      fun h w hbegins hw => h w hw ((List.mem_inits w cs).mp hbegins)⟩

theorem mem_continuation :
    w ∈ continuation.matches' ↔
      (∃ c, (c = '.' ∨ c.isDigit) ∧ w = [c]) ∨
        ∃ mark s d, (mark = 'e' ∨ mark = 'E') ∧ d.isDigit ∧
          w = mark :: (Sign.spelling s ++ [d]) := by
  rw [continuation, RegularExpression.matches'_add, Language.mem_add, mem_oneOf, mem_oneOf_mul]
  refine or_congr (by simp only [List.mem_cons, mem_digits_iff]) ?_
  constructor
  · rintro ⟨mark, hmark, v, hv, rfl⟩
    rw [RegularExpression.matches'_mul] at hv
    obtain ⟨u, hu, t, ht, rfl⟩ := Language.mem_mul.mp hv
    obtain ⟨s, rfl⟩ := mem_sign.mp hu
    obtain ⟨d, hd, rfl⟩ := mem_oneOf.mp ht
    exact ⟨mark, s, d, List.mem_pair.mp hmark, mem_digits_iff.mp hd, rfl⟩
  · rintro ⟨mark, s, d, hmark, hd, rfl⟩
    refine ⟨mark, List.mem_pair.mpr hmark, _, ?_, rfl⟩
    rw [RegularExpression.matches'_mul]
    exact Language.mem_mul.mpr ⟨_, mem_sign.mpr ⟨s, rfl⟩, _,
      mem_oneOf.mpr ⟨d, mem_digits_iff.mpr hd, rfl⟩, rfl⟩

-- Where nothing goes on with an integer, no part of a number is found.

theorem Avoids.splitDigits (h : Avoids rest continuation) : splitDigits rest = ([], rest) := by
  cases rest with
  | nil => rfl
  | cons c rest =>
    refine splitDigits_cons_of_not (Bool.eq_false_iff.mpr fun hdigit => ?_)
    exact h [c] (mem_continuation.mpr (.inl ⟨c, .inr hdigit, rfl⟩)) ⟨rest, rfl⟩

theorem Avoids.splitFraction (h : Avoids rest continuation) :
    Literal.splitFraction rest = (none, rest) := by
  cases rest with
  | nil => rfl
  | cons c rest =>
    refine Literal.splitFraction_cons_of_not fun hpoint => ?_
    exact h [c] (mem_continuation.mpr (.inl ⟨c, .inl hpoint, rfl⟩)) ⟨rest, rfl⟩

theorem Avoids.splitExponent (h : Avoids rest continuation) :
    ExponentPart.split rest = (none, rest) := by
  have hspelling := ExponentPart.spelling_split rest
  have hwellFormed : ∀ part ∈ (ExponentPart.split rest).1, part.WellFormed :=
    ExponentPart.wellFormed_of_mem_split
  rcases hsplit : ExponentPart.split rest with ⟨_ | part, remaining⟩
  · rw [hsplit] at hspelling
    exact congrArg (Prod.mk none) hspelling
  · rw [hsplit] at hspelling hwellFormed
    obtain ⟨hmark, hne, hdigits⟩ := hwellFormed part rfl
    obtain ⟨d, ds, hcons⟩ := List.exists_cons_of_ne_nil hne
    have hd : d.isDigit := hdigits d (hcons ▸ List.mem_cons_self)
    refine absurd ⟨ds ++ remaining, ?_⟩
      (h _ (mem_continuation.mpr (.inr ⟨part.mark, part.sign, d, hmark, hd, rfl⟩)))
    rw [← hspelling]
    simp [ExponentPart.spelling, hcons]

end Grammar

open Grammar (Avoids continuation hexContinuation)

variable {rest : List Char} {n : Int32}

theorem Literal.split?_integer (s : Option Sign) {ds : List Char} (hne : ds ≠ [])
    (hds : ∀ c ∈ ds, c.isDigit) (h : Avoids rest continuation) :
    Literal.split? (Sign.spelling s ++ ds ++ rest) = some (⟨s, ds, none, none⟩, rest) := by
  obtain ⟨d, tail, rfl⟩ := List.exists_cons_of_ne_nil hne
  have hsign : Sign.split (Sign.spelling s ++ d :: (tail ++ rest)) = (s, d :: (tail ++ rest)) :=
    Sign.split_spelling_append s (not_mem_signs_of_isDigit (hds d List.mem_cons_self))
  unfold Literal.split?
  rw [List.append_assoc, List.cons_append, hsign]
  dsimp only
  rw [← List.cons_append, splitDigits_digits_append hds, h.splitDigits]
  dsimp only
  rw [h.splitFraction]
  dsimp only
  rw [h.splitExponent]
  simp [Literal.digits]

theorem exists_spelling_integerText (n : Int32) :
    ∃ s, (integerText n.toInt).toList = Sign.spelling s ++ Nat.toDigits 10 n.toInt.natAbs ∧
      withSign (Sign.isMinus s) n.toInt.natAbs = n.toInt := by
  rw [toList_integerText]
  by_cases hnegative : n.toInt < 0
  · refine ⟨some .minus, by rw [if_pos hnegative]; rfl, ?_⟩
    change -(n.toInt.natAbs : Int) = n.toInt
    omega
  · refine ⟨none, by rw [if_neg hnegative]; rfl, ?_⟩
    change (n.toInt.natAbs : Int) = n.toInt
    omega

-- Only zero is written with a zero in front, and it has no further digits.
theorem eq_zero_of_integerText_append {cs : List Char}
    (h : (integerText n.toInt).toList ++ rest = '0' :: cs) : n = 0 ∧ rest = cs := by
  by_cases hzero : n.toInt.natAbs = 0
  · obtain rfl : n = 0 := Int32.toInt_inj.mp (Int.natAbs_eq_zero.mp hzero)
    exact ⟨rfl, (List.cons.inj h).2⟩
  · obtain ⟨d, ds, hdigits, hd⟩ := exists_toDigits (Nat.pos_of_ne_zero hzero)
    rw [toList_integerText, hdigits] at h
    split at h
    · exact absurd (List.cons.inj h).1 (by decide)
    · exact absurd (List.cons.inj h).1 hd

theorem dropWhile_isBlank_integerText {blanks : List Char} (h : ∀ c ∈ blanks, Text.isBlank c) :
    (blanks ++ ((integerText n.toInt).toList ++ rest)).dropWhile Text.isBlank =
      (integerText n.toInt).toList ++ rest := by
  have hblank : ∀ c ∈ '-' :: Grammar.digits, Text.isBlank c = false :=
    Grammar.forall_of_all (by decide)
  have hdigits := all_isDigit_toDigits n.toInt.natAbs
  obtain ⟨d, ds, hcons⟩ := List.exists_cons_of_ne_nil
    (Nat.toDigits_ne_nil (n := n.toInt.natAbs) (b := 10))
  rw [List.dropWhile_append_of_pos h, toList_integerText, hcons]
  split
  · exact List.dropWhile_cons_of_neg (by simp [hblank '-' List.mem_cons_self])
  · rw [hcons, List.all_cons, Bool.and_eq_true] at hdigits
    have hd := hblank d (List.mem_cons_of_mem _ (Grammar.mem_digits_iff.mpr hdigits.1))
    exact List.dropWhile_cons_of_neg (by simp [hd])

namespace Numeral

theorem ofDecimal_integerText (n : Int32) (h : Avoids rest continuation) :
    ofDecimal ((integerText n.toInt).toList ++ rest) = .int n false := by
  obtain ⟨s, htext, hvalue⟩ := exists_spelling_integerText n
  have hdigits := List.all_eq_true.mp (all_isDigit_toDigits n.toInt.natAbs)
  have hinteger : Literal.integer ⟨s, Nat.toDigits 10 n.toInt.natAbs, .none, .none⟩ = n.toInt := by
    unfold Literal.integer Literal.isNegative
    rw [ofDigits, Nat.ofDigitChars_ten_toDigits, hvalue]
  rw [ofDecimal, htext, Literal.split?_integer s Nat.toDigits_ne_nil hdigits h]
  change ofLiteral _ = _
  rw [ofLiteral, if_pos (Literal.isInteger_iff.mpr ⟨rfl, rfl⟩), hinteger, int32?_toInt]
  rfl

-- An integer is read back from its text, whatever blanks stand before it and whatever stands behind
-- that does not go on with it.
theorem ofText_integerText (n : Int32) {allowHex : Bool} {blanks rest : String}
    (hblanks : ∀ c ∈ blanks.toList, Text.isBlank c) (hrest : Avoids rest.toList continuation)
    (hhex : allowHex → n = 0 → Avoids rest.toList hexContinuation) :
    ofText allowHex (blanks ++ integerText n.toInt ++ rest) = .int n false := by
  have hcs : (blanks ++ integerText n.toInt ++ rest).toList.dropWhile Text.isBlank =
      (integerText n.toInt).toList ++ rest.toList := by
    rw [String.toList_append, String.toList_append, List.append_assoc]
    exact dropWhile_isBlank_integerText hblanks
  rcases ofText_cases allowHex hcs with ⟨x, cs, hallow, hx, heq, hne, -⟩ | ⟨-, hread⟩
  · obtain ⟨hzero, hcons⟩ := eq_zero_of_integerText_append heq
    cases cs with
    | nil => exact absurd rfl hne
    | cons c cs =>
      have hc : c ∈ Grammar.hexDigits := by
        by_contra hc
        rw [hexDigits_eq] at hne
        simp [hc] at hne
      refine absurd ⟨cs, hcons.symm⟩ (hhex hallow hzero [x, c] ?_)
      exact Grammar.mem_oneOf_mul.mpr
        ⟨x, List.mem_pair.mpr hx, [c], Grammar.mem_oneOf.mpr ⟨c, hc, rfl⟩, rfl⟩
  · rw [hread]
    exact ofDecimal_integerText n hrest

end Numeral

namespace Candidate

-- A text is an integer key if it is the text of the integer, and else a key of its own.
theorem exists_key_of_text {options : Options} (ho : options.canonicalIntegerKeys) (s : String) :
    ∃ k, ofValue options (.str s) = .key k ∧ ∀ n, k = .int n ↔ s = integerText n.toInt := by
  simp only [← canonicalInt?_eq_some_iff]
  cases hs : canonicalInt? s with
  | some m => exact ⟨.int m, by simp [ofValue, hs, ho], by simp⟩
  | none => exact ⟨.str s, by simp [ofValue, hs], by simp⟩

end Candidate

namespace Eval

theorem run_index_text {options : Options} (state : State) (ho : options.canonicalIntegerKeys)
    (s : String) :
    ∃ found, (index (.single (.str s))).run options state = (.ok found, state) ∧
      ∀ n, found.keys = [.int n] ↔ s = integerText n.toInt := by
  obtain ⟨k, hk, hint⟩ := Candidate.exists_key_of_text ho s
  have hreports : illegalReports options .illegalOffset [.str s] = [] := by
    simp [illegalReports, hk]
  refine ⟨.ofEntry options (.single (.str s)), ?_, fun n => ?_⟩
  · unfold index
    rw [run_classify (by simp [Value.isMarker]), Entry.values_single, hreports,
      State.reporting_nil]
  · rw [← hint]
    simp [IndexClass.ofEntry, IndexClass.ofCandidates, hk, Candidate.key?, List.eraseDupsBy_cons]

-- The text of an integer is read back as this integer, and it is the only text that is its key.
theorem integer_text_exact (n : Int32) :
    ∃ text, (Value.int n).toText = .ok (some text) ∧
      (∀ (allowHex : Bool) (blanks rest : String), (∀ c ∈ blanks.toList, Text.isBlank c) →
        Avoids rest.toList continuation → (allowHex → n = 0 → Avoids rest.toList hexContinuation) →
        Numeral.ofText allowHex (blanks ++ text ++ rest) = .int n false) ∧
      ∀ (options : Options) (state : State), options.canonicalIntegerKeys → ∀ s,
        ∃ found, (index (.single (.str s))).run options state = (.ok found, state) ∧
          (found.keys = [.int n] ↔ s = text) := by
  refine ⟨integerText n.toInt, rfl, ?_, ?_⟩
  · intro allowHex blanks rest hblanks hrest hhex
    exact Numeral.ofText_integerText n hblanks hrest hhex
  · intro options state ho s
    obtain ⟨found, hrun, hkeys⟩ := run_index_text state ho s
    exact ⟨found, hrun, hkeys n⟩

-- A zero that looks like the beginning of a hexadecimal number, and a zero with a sign, which is no
-- integer key.
theorem integer_text_exact_zero :
    (∀ c ∈ "\t ".toList, Text.isBlank c) ∧ Avoids "xg".toList continuation ∧
      Avoids "xg".toList hexContinuation ∧ ({} : Options).canonicalIntegerKeys ∧
      (Value.int 0).toText = .ok (some "0") ∧
      Numeral.ofText true ("\t " ++ "0" ++ "xg") = .int 0 false ∧
      ∃ found, (index (.single (.str "-0"))).run {} .initial = (.ok found, .initial) ∧
        found.keys ≠ [.int 0] := by
  have hblanks : ∀ c ∈ "\t ".toList, Text.isBlank c := Grammar.forall_of_all (by decide)
  have hrest : Avoids "xg".toList continuation := by decide
  have hhex : Avoids "xg".toList hexContinuation := by decide
  have hzero : (Value.int 0).toText = .ok (some "0") := by decide
  obtain ⟨text, htext, hread, hkey⟩ := integer_text_exact 0
  obtain rfl : "0" = text := Option.some.inj (Except.ok.inj (hzero.symm.trans htext))
  obtain ⟨found, hrun, hkeys⟩ := hkey {} .initial rfl "-0"
  exact ⟨hblanks, hrest, hhex, rfl, hzero, hread true "\t " "xg" hblanks hrest fun _ _ => hhex,
    found, hrun, fun h => absurd (hkeys.mp h) (by decide)⟩

end Eval

end AbsEval
