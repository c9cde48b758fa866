import AbsEval.Proofs.Numeral.Scanner

namespace AbsEval

-- Digits are split off up to the first character that is none.
theorem splitDigits_append_of_head {ds cs : List Char} (h : ∀ c ∈ ds, c.isDigit)
    (hcs : ∀ c ∈ cs.head?, c.isDigit = false) : splitDigits (ds ++ cs) = (ds, cs) := by
  rw [splitDigits_digits_append h]
  cases cs with
  | nil => simp [splitDigits]
  | cons c cs => simp [splitDigits_cons_of_not (hcs c rfl)]

theorem ExponentPart.split_spelling {e : Option ExponentPart} (he : ∀ part ∈ e, part.WellFormed) :
    split (spelling e) = (e, []) := by
  cases e with
  | none => rfl
  | some part =>
    obtain ⟨hmark, hne, hdigits⟩ := he part rfl
    obtain ⟨d, ds, hcons⟩ := List.exists_cons_of_ne_nil hne
    have hd : d.isDigit := hdigits d (hcons ▸ List.mem_cons_self)
    have hsign : Sign.split (Sign.spelling part.sign ++ part.digits) =
        (part.sign, part.digits) := by
      rw [hcons]
      exact Sign.split_spelling_append part.sign (not_mem_signs_of_isDigit hd)
    have hsplit : splitDigits part.digits = (part.digits, []) := by
      have hnone : ∀ c ∈ ([] : List Char).head?, c.isDigit = false := by simp
      simpa using splitDigits_append_of_head hdigits hnone
    show split (part.mark :: (Sign.spelling part.sign ++ part.digits)) = _
    unfold split
    dsimp only
    rw [hsign, hsplit, if_pos ⟨hmark, hne⟩]

theorem Literal.split?_spelling {l : Literal} (h : l.WellFormed) :
    split? l.spelling = some (l, []) := by
  obtain ⟨hwhole, hfraction, he, hne⟩ := id h
  have hmark : ∀ c ∈ (ExponentPart.spelling l.exponent).head?, c.isDigit = false := fun c hc =>
    isDigit_eq_false_of_mark (List.mem_pair.mp (ExponentPart.mem_head?_spelling he hc))
  have hsign := sign_split_spelling_append h []
  rw [List.append_nil, List.append_nil] at hsign
  have hdigits : splitDigits (l.whole ++
      (fractionSpelling l.fraction ++ ExponentPart.spelling l.exponent)) =
        (l.whole, fractionSpelling l.fraction ++ ExponentPart.spelling l.exponent) := by
    refine splitDigits_append_of_head hwhole ?_
    cases l.fraction with
    | none => exact hmark
    | some ds => simp [fractionSpelling]
  have hpoint : splitFraction (fractionSpelling l.fraction ++ ExponentPart.spelling l.exponent) =
      (l.fraction, ExponentPart.spelling l.exponent) := by
    cases hf : l.fraction with
    | none =>
      cases hl : l.exponent with
      | none => rfl
      | some part =>
        refine splitFraction_cons_of_not ?_
        rcases (he part hl).mark with h | h <;> rw [h] <;> decide
    | some ds =>
      show (some (splitDigits (ds ++ _)).1, (splitDigits (ds ++ _)).2) = _
      rw [splitDigits_append_of_head (hfraction ds hf) hmark]
  unfold split?
  rw [hsign]
  dsimp only
  rw [hdigits]
  dsimp only
  rw [hpoint]
  dsimp only
  rw [ExponentPart.split_spelling he]
  exact if_neg hne

theorem Literal.dropWhile_isBlank_spelling {l : Literal} (h : l.WellFormed) :
    l.spelling.dropWhile Text.isBlank = l.spelling := by
  have hblank : ∀ c ∈ Grammar.digits ++ ['+', '-', '.'], Text.isBlank c = false :=
    Grammar.forall_of_all (by decide)
  have hne : (Sign.spelling l.sign ++ l.whole) ++ fractionSpelling l.fraction ≠ [] := by
    intro hnil
    obtain ⟨hleft, hfraction⟩ := List.append_eq_nil_iff.mp hnil
    refine h.nonempty ?_
    rw [digits, (List.append_eq_nil_iff.mp hleft).2]
    cases hf : l.fraction with
    | none => rfl
    | some ds =>
      rw [hf] at hfraction
      cases hfraction
  obtain ⟨c, cs, hcons⟩ := List.exists_cons_of_ne_nil hne
  have hc := hblank c (mem_chars_of_mem_mantissa h (hcons ▸ List.mem_cons_self))
  rw [spelling_eq, hcons, List.cons_append]
  exact List.dropWhile_cons_of_neg (by simp [hc])

-- Of a text that is a decimal number nothing is left over, whether hexadecimal numbers are read too
-- or not.
theorem Numeral.ofText_spelling {l : Literal} (h : l.WellFormed) (allowHex : Bool) {text : String}
    (htext : l.spelling = text.toList) : ofText allowHex text = ofLiteral l := by
  have hcs : text.toList.dropWhile Text.isBlank = l.spelling := by
    rw [← htext, Literal.dropWhile_isBlank_spelling h]
  rcases ofText_cases allowHex hcs with ⟨x, rest, -, hx, heq, -⟩ | ⟨-, hread⟩
  · have hmem : l.spelling ∈ Grammar.decimal.matches' := Grammar.mem_decimal.mpr ⟨l, h, rfl⟩
    rw [heq] at hmem
    have hlength := Grammar.length_le_one_of_mem_decimal hx hmem (List.prefix_refl _)
    simp at hlength
  · rw [hread, ofDecimal, Literal.split?_spelling h]
    rfl

end AbsEval
