import AbsEval.Proofs.Double.Decimal
import AbsEval.Proofs.Numeral.Longest
import Mathlib.Data.Nat.Digits.Defs

namespace AbsEval

namespace Grammar

def digitValue (c : Char) : Nat :=
  hexDigits.idxOf c.toLower

-- The number that digits stand for in a base, the most significant one first.
def positional (base : Nat) (w : List Char) : Nat :=
  Nat.ofDigits base (w.map digitValue).reverse

def signedValue : List Char → Int
  | '-' :: w => -(positional 10 w : Int)
  | '+' :: w => positional 10 w
  | w => positional 10 w

-- A decimal number without its sign.
def magnitude (w : List Char) : ℚ :=
  let mantissa := w.takeWhile (· ∉ ['e', 'E'])
  let exponent := (w.dropWhile (· ∉ ['e', 'E'])).tail
  let whole := mantissa.takeWhile (· ≠ '.')
  let fraction := (mantissa.dropWhile (· ≠ '.')).tail
  ((signedValue whole).natAbs + positional 10 fraction / 10 ^ fraction.length) *
    10 ^ signedValue exponent

inductive DenotesInteger : List Char → Int → Prop where
  | decimal {w : List Char} (h : w ∈ integer.matches') : DenotesInteger w (signedValue w)
  | hexadecimal {w : List Char} (h : w ∈ hexadecimal.matches') :
    DenotesInteger w (positional 16 (w.drop 2))

section Positional

variable {base : Nat} {w : List Char}

theorem positional_cons (c : Char) (w : List Char) :
    positional base (c :: w) = positional base w + base ^ w.length * digitValue c := by
  rw [positional, List.map_cons, Nat.ofDigits_reverse_cons, List.length_map, positional]

-- Reading digits one after the other gives the number they stand for.
theorem foldl_eq_positional {step : Nat → Char → Nat}
    (h : ∀ n, ∀ c ∈ w, step n c = n * base + digitValue c) (init : Nat) :
    w.foldl step init = init * base ^ w.length + positional base w := by
  induction w generalizing init with
  | nil => simp [positional]
  | cons c w ih =>
    rw [List.foldl_cons, ih (fun n d hd => h n d (List.mem_cons_of_mem c hd)),
      h init c List.mem_cons_self, positional_cons, List.length_cons, Nat.pow_succ]
    ring

theorem digitValue_of_isDigit {c : Char} (h : c.isDigit) :
    digitValue c = c.toNat - '0'.toNat := by
  have hall : ∀ c ∈ digits, digitValue c = c.toNat - '0'.toNat :=
    forall_of_all (by decide)
  exact hall c (mem_digits_iff.mpr h)

theorem ofDigits_append (v : List Char) (h : ∀ c ∈ w, c.isDigit) :
    ofDigits (v ++ w) = ofDigits v * 10 ^ w.length + positional 10 w := by
  unfold ofDigits
  rw [Nat.ofDigitChars_append, Nat.ofDigitChars_eq_foldl]
  refine foldl_eq_positional (fun n c hc => ?_) _
  rw [digitValue_of_isDigit (h c hc), Nat.mul_comm]

theorem positional_of_isDigit (h : ∀ c ∈ w, c.isDigit) : positional 10 w = ofDigits w := by
  have happend := ofDigits_append [] h
  rw [List.nil_append] at happend
  rw [happend]
  simp [ofDigits]

theorem signedValue_spelling (s : Option Sign) (h : ∀ c ∈ w, c.isDigit) :
    signedValue (Sign.spelling s ++ w) = withSign (Sign.isMinus s) (ofDigits w) := by
  rw [← positional_of_isDigit h]
  rcases s with _ | _ | _
  · cases w with
    | nil => rfl
    | cons d ds =>
      have hd := h d List.mem_cons_self
      show signedValue (d :: ds) = _
      unfold signedValue
      split
      · next heq => cases heq; cases hd
      · next heq => cases heq; cases hd
      · rfl
  · rfl
  · rfl

end Positional

-- Cutting a text before the first of some characters.
theorem span_append {p : Char → Bool} {v w : List Char} (hv : ∀ c ∈ v, p c)
    (hw : ∀ c ∈ w.head?, p c = false) :
    (v ++ w).takeWhile p = v ∧ (v ++ w).dropWhile p = w := by
  rw [List.takeWhile_append_of_pos hv, List.dropWhile_append_of_pos hv]
  cases w with
  | nil => simp
  | cons c w => simp [hw c rfl]

end Grammar

theorem mem_signed {s : Option Sign} {ds : List Char} (h : ∀ c ∈ ds, c.isDigit) :
    ∀ c ∈ Sign.spelling s ++ ds, c ∈ Grammar.digits ++ ['+', '-'] := by
  intro c hc
  rcases List.mem_append.mp hc with hc | hc
  · rcases s with _ | _ | _
    · cases hc
    · rw [List.mem_singleton.mp hc]
      decide
    · rw [List.mem_singleton.mp hc]
      decide
  · exact List.mem_append_left _ (Grammar.mem_digits_iff.mpr (h c hc))

theorem Sign.split_eq_minus_iff {cs : List Char} :
    (Sign.split cs).1 = some .minus ↔ cs.head? = some '-' := by
  cases cs with
  | nil => simp [Sign.split]
  | cons c cs =>
    unfold Sign.split
    split <;> simp_all

namespace ExponentPart

theorem signedValue_spelling {e : Option ExponentPart} (h : ∀ part ∈ e, part.WellFormed) :
    Grammar.signedValue (spelling e).tail = (e.map value).getD 0 := by
  cases e with
  | none => rfl
  | some part => exact Grammar.signedValue_spelling part.sign (h part rfl).digits

theorem mem_head?_spelling {e : Option ExponentPart} (h : ∀ part ∈ e, part.WellFormed) {c : Char}
    (hc : c ∈ (spelling e).head?) : c ∈ ['e', 'E'] := by
  cases e with
  | none => cases hc
  | some part =>
    obtain rfl := Option.mem_some_iff.mp hc
    exact List.mem_pair.mpr (h part rfl).mark

end ExponentPart

namespace Literal

variable {l : Literal}

theorem mem_chars_of_mem_mantissa (h : l.WellFormed) {c : Char}
    (hc : c ∈ (Sign.spelling l.sign ++ l.whole) ++ fractionSpelling l.fraction) :
    c ∈ Grammar.digits ++ ['+', '-', '.'] := by
  rcases List.mem_append.mp hc with hc | hc
  · have hsub : ∀ c ∈ Grammar.digits ++ ['+', '-'], c ∈ Grammar.digits ++ ['+', '-', '.'] :=
      Grammar.forall_of_all (by decide)
    exact hsub c (mem_signed h.whole c hc)
  · cases hfraction : l.fraction with
    | none =>
      rw [hfraction] at hc
      cases hc
    | some ds =>
      rw [hfraction] at hc
      rcases List.mem_cons.mp hc with rfl | hc
      · decide
      · exact List.mem_append_left _ (Grammar.mem_digits_iff.mpr (h.fraction ds hfraction c hc))

theorem spelling_eq (l : Literal) :
    l.spelling = (Sign.spelling l.sign ++ l.whole) ++ fractionSpelling l.fraction ++
      ExponentPart.spelling l.exponent := by
  simp only [spelling, List.append_assoc]

theorem magnitude_spelling (h : l.WellFormed) :
    Grammar.magnitude l.spelling = l.decimal.toRat := by
  have hmark : ∀ c ∈ Grammar.digits ++ ['+', '-', '.'], decide (c ∉ ['e', 'E']) :=
    Grammar.forall_of_all (by decide)
  have hpoint : ∀ c ∈ Grammar.digits ++ ['+', '-'], decide (c ≠ '.') :=
    Grammar.forall_of_all (by decide)
  -- Cut at the mark and then at the point, a spelling falls into its parts again.
  obtain ⟨hmantissa, hexponent⟩ := Grammar.span_append
    (fun c hc => hmark c (mem_chars_of_mem_mantissa h hc)) (w := ExponentPart.spelling l.exponent)
    (fun c hc => decide_eq_false (not_not.mpr (ExponentPart.mem_head?_spelling h.exponent hc)))
  obtain ⟨hwhole, hfraction⟩ := Grammar.span_append
    (fun c hc => hpoint c (mem_signed (s := l.sign) h.whole c hc))
    (w := fractionSpelling l.fraction) (by cases l.fraction <;> simp [fractionSpelling])
  have htail : (fractionSpelling l.fraction).tail = l.fraction.getD [] := by
    cases l.fraction <;> rfl
  unfold Grammar.magnitude
  rw [spelling_eq]
  dsimp only
  rw [hmantissa, hexponent, hwhole, hfraction, htail,
    Grammar.signedValue_spelling l.sign h.whole, Double.natAbs_withSign,
    ExponentPart.signedValue_spelling h.exponent]
  have hdigits : ∀ c ∈ l.fraction.getD [], c.isDigit := by
    cases hf : l.fraction with
    | none => simp
    | some ds => exact h.fraction ds hf
  unfold Decimal.toRat decimal digits
  dsimp only
  rw [Grammar.ofDigits_append l.whole hdigits, zpow_sub₀ (by norm_num), zpow_natCast]
  push_cast
  field_simp

theorem head?_spelling_eq_minus (h : l.WellFormed) :
    decide (l.spelling.head? = some '-') = l.isNegative := by
  have hsign : (Sign.split l.spelling).1 = l.sign := by
    have hsplit := sign_split_spelling_append h []
    rw [List.append_nil] at hsplit
    rw [hsplit]
  unfold isNegative Sign.isMinus
  rw [← hsign, decide_eq_decide]
  exact Sign.split_eq_minus_iff.symm

theorem isInteger_iff : l.isInteger ↔ l.fraction = none ∧ l.exponent = none := by
  simp [isInteger]

theorem spelling_of_isInteger (h : l.isInteger) :
    l.spelling = Sign.spelling l.sign ++ l.whole := by
  obtain ⟨hfraction, hexponent⟩ := isInteger_iff.mp h
  rw [spelling_eq, hfraction, hexponent]
  simp [fractionSpelling, ExponentPart.spelling]

theorem spelling_mem_integer_iff (h : l.WellFormed) :
    l.spelling ∈ Grammar.integer.matches' ↔ l.isInteger := by
  constructor
  · intro hmem
    obtain ⟨s, ds, -, hds, hspelling⟩ := Grammar.mem_integer.mp hmem
    have hchars : ∀ c ∈ l.spelling, c ∈ Grammar.digits ++ ['+', '-'] :=
      hspelling ▸ mem_signed hds
    rw [spelling_eq] at hchars
    refine isInteger_iff.mpr ⟨?_, ?_⟩
    · cases hf : l.fraction with
      | none => rfl
      | some ds => exact absurd (hchars '.' (by simp [hf, fractionSpelling])) (by decide)
    · cases he : l.exponent with
      | none => rfl
      | some part =>
        have hmark : ∀ c ∈ ['e', 'E'], c ∉ Grammar.digits ++ ['+', '-'] :=
          Grammar.forall_of_all (by decide)
        exact absurd (hchars part.mark (by simp [he, ExponentPart.spelling]))
          (hmark _ (List.mem_pair.mpr (h.exponent part he).mark))
  · intro hinteger
    have hne : l.whole ≠ [] := by
      have := h.nonempty
      rwa [digits, (isInteger_iff.mp hinteger).1, Option.getD_none, List.append_nil] at this
    exact Grammar.mem_integer.mpr
      ⟨l.sign, l.whole, hne, h.whole, (spelling_of_isInteger hinteger).symm⟩

theorem signedValue_spelling (h : l.WellFormed) (hinteger : l.isInteger) :
    Grammar.signedValue l.spelling = l.integer := by
  rw [spelling_of_isInteger hinteger]
  exact Grammar.signedValue_spelling l.sign h.whole

end Literal

end AbsEval
