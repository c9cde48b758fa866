import AbsEval.Proofs.Numeral.Grammar

namespace AbsEval

-- The longest beginning of a text that is a word of the language.
structure LongestPrefix (L : Language Char) (cs w : List Char) : Prop where
  mem : w ∈ L
  begins : w <+: cs
  longest : ∀ v ∈ L, v <+: cs → v.length ≤ w.length

theorem LongestPrefix.unique {L : Language Char} {cs v w : List Char} (hv : LongestPrefix L cs v)
    (hw : LongestPrefix L cs w) : v = w := by
  have hle := hw.longest v hv.mem hv.begins
  have hge := hv.longest w hw.mem hw.begins
  exact (List.prefix_of_prefix_length_le hv.begins hw.begins hle).eq_of_length (by omega)

theorem LongestPrefix.eq_singleton {L : Language Char} {cs w : List Char}
    (h : LongestPrefix L cs w) : LongestPrefix L cs = (· = w) :=
  funext fun _ => propext ⟨fun hv => hv.unique h, fun hv => hv ▸ h⟩

section Digits

variable {ds cs : List Char} {c : Char}

theorem splitDigits_digits_append (h : ∀ c ∈ ds, c.isDigit) :
    splitDigits (ds ++ cs) = (ds ++ (splitDigits cs).1, (splitDigits cs).2) := by
  unfold splitDigits
  rw [List.takeWhile_append_of_pos h, List.dropWhile_append_of_pos h]

theorem splitDigits_cons_of_not (h : c.isDigit = false) :
    splitDigits (c :: cs) = ([], c :: cs) := by
  simp [splitDigits, h]

theorem splitDigits_suffix (cs : List Char) : (splitDigits cs).2 <:+ cs :=
  List.dropWhile_suffix _

theorem isDigit_of_mem_splitDigits (hc : c ∈ (splitDigits cs).1) : c.isDigit :=
  List.all_eq_true.mp List.all_takeWhile c hc

theorem Sign.split_spelling_append (s : Option Sign) (h : c ∉ ['+', '-']) :
    Sign.split (Sign.spelling s ++ c :: cs) = (s, c :: cs) := by
  rcases s with _ | _ | _
  · unfold Sign.split Sign.spelling
    split <;> simp_all
  · rfl
  · rfl

end Digits

theorem not_mem_signs_of_isDigit {c : Char} (h : c.isDigit) : c ∉ ['+', '-'] := by
  intro hmem
  rcases List.mem_pair.mp hmem with rfl | rfl <;> cases h

theorem isDigit_eq_false_of_mark {c : Char} (h : c = 'e' ∨ c = 'E') : c.isDigit = false := by
  rcases h with rfl | rfl <;> rfl

namespace ExponentPart

theorem wellFormed_of_mem_split {cs : List Char} : ∀ e ∈ (split cs).1, e.WellFormed := by
  intro e he
  cases cs with
  | nil => cases he
  | cons c cs =>
    unfold split at he
    dsimp only at he
    split at he
    · next h =>
      obtain rfl := Option.mem_some_iff.mp he
      exact ⟨h.1, h.2, fun _ => isDigit_of_mem_splitDigits⟩
    · cases he

theorem split_suffix (cs : List Char) : (split cs).2 <:+ cs :=
  ⟨_, spelling_split cs⟩

theorem split_spelling_append_suffix {e : Option ExponentPart} (he : ∀ part ∈ e, part.WellFormed)
    (rest : List Char) : (split (spelling e ++ rest)).2 <:+ rest := by
  cases e with
  | none => exact split_suffix rest
  | some part =>
    obtain ⟨hmark, hne, hdigits⟩ := he part rfl
    obtain ⟨d, ds, hcons⟩ := List.exists_cons_of_ne_nil hne
    have hd : d.isDigit := hdigits d (hcons ▸ List.mem_cons_self)
    have hsign : Sign.split (Sign.spelling part.sign ++ (part.digits ++ rest)) =
        (part.sign, part.digits ++ rest) := by
      rw [hcons]
      exact Sign.split_spelling_append part.sign (not_mem_signs_of_isDigit hd)
    show (split (part.mark :: (Sign.spelling part.sign ++ part.digits ++ rest))).2 <:+ rest
    unfold split
    dsimp only
    rw [List.append_assoc, hsign, splitDigits_digits_append hdigits, if_pos ⟨hmark, by simp [hne]⟩]
    exact splitDigits_suffix rest

end ExponentPart

namespace Literal

variable {cs rest whole : List Char} {fraction : Option (List Char)} {e : Option ExponentPart}
  {l : Literal}

theorem isDigit_of_mem_splitFraction :
    ∀ ds ∈ (splitFraction cs).1, ∀ c ∈ ds, c.isDigit := by
  intro ds hds c hc
  unfold splitFraction at hds
  split at hds
  · obtain rfl := Option.mem_some_iff.mp hds
    exact isDigit_of_mem_splitDigits hc
  · cases hds

theorem splitFraction_suffix (cs : List Char) : (splitFraction cs).2 <:+ cs :=
  ⟨_, spelling_splitFraction cs⟩

theorem splitFraction_cons_of_not {c : Char} (h : c ≠ '.') :
    splitFraction (c :: cs) = (none, c :: cs) := by
  unfold splitFraction
  split <;> simp_all

theorem wellFormed_of_split? (h : split? cs = some (l, rest)) : l.WellFormed := by
  unfold split? at h
  dsimp only at h
  split at h
  · cases h
  · next hne =>
    cases h
    exact ⟨fun _ => isDigit_of_mem_splitDigits, isDigit_of_mem_splitFraction,
      ExponentPart.wellFormed_of_mem_split, hne⟩

-- What is left of a text after an unsigned number.
def remainder (cs : List Char) : List Char :=
  (ExponentPart.split (splitFraction (splitDigits cs).2).2).2

-- A scan does not stop inside a fraction and an exponent with which the text begins.
theorem split_splitFraction_suffix (hfraction : ∀ ds ∈ fraction, ∀ c ∈ ds, c.isDigit)
    (he : ∀ part ∈ e, part.WellFormed) :
    (ExponentPart.split (splitFraction
      (fractionSpelling fraction ++ (ExponentPart.spelling e ++ rest))).2).2 <:+ rest := by
  cases e with
  | none =>
    have hrest : (splitFraction (fractionSpelling fraction ++ rest)).2 <:+ rest := by
      cases fraction with
      | none => exact splitFraction_suffix rest
      | some ds =>
        show (splitDigits (ds ++ rest)).2 <:+ rest
        rw [splitDigits_digits_append (hfraction ds rfl)]
        exact splitDigits_suffix rest
    exact (ExponentPart.split_suffix _).trans hrest
  | some part =>
    have hmark := (he part rfl).mark
    have hstop : (splitFraction (fractionSpelling fraction ++
        (ExponentPart.spelling (some part) ++ rest))).2 =
          ExponentPart.spelling (some part) ++ rest := by
      cases fraction with
      | none =>
        refine congrArg Prod.snd (splitFraction_cons_of_not ?_)
        rcases hmark with h | h <;> rw [h] <;> decide
      | some ds =>
        show (splitDigits (ds ++ (part.mark :: _ ++ rest))).2 = _
        rw [splitDigits_digits_append (hfraction ds rfl), List.cons_append,
          splitDigits_cons_of_not (isDigit_eq_false_of_mark hmark)]
        rfl
    rw [hstop]
    exact ExponentPart.split_spelling_append_suffix he rest

theorem remainder_suffix (hwhole : ∀ c ∈ whole, c.isDigit)
    (hfraction : ∀ ds ∈ fraction, ∀ c ∈ ds, c.isDigit) (he : ∀ part ∈ e, part.WellFormed) :
    remainder (whole ++ (fractionSpelling fraction ++ (ExponentPart.spelling e ++ rest))) <:+
      rest := by
  unfold remainder
  rw [splitDigits_digits_append hwhole]
  by_cases hinteger : fraction = none ∧ e = none
  · -- Further digits may follow an integer, and then the number goes on.
    obtain ⟨rfl, rfl⟩ := hinteger
    exact (ExponentPart.split_suffix _).trans
      ((splitFraction_suffix _).trans (splitDigits_suffix rest))
  · have hstop : (splitDigits (fractionSpelling fraction ++
        (ExponentPart.spelling e ++ rest))).2 =
          fractionSpelling fraction ++ (ExponentPart.spelling e ++ rest) := by
      cases fraction with
      | some ds => exact congrArg Prod.snd (splitDigits_cons_of_not (by decide))
      | none =>
        cases e with
        | none => exact absurd ⟨rfl, rfl⟩ hinteger
        | some part =>
          exact congrArg Prod.snd
            (splitDigits_cons_of_not (isDigit_eq_false_of_mark (he part rfl).mark))
    rw [hstop]
    exact split_splitFraction_suffix hfraction he

-- Where there is a digit before the exponent, a scan finds one.
theorem split_digits_ne_nil (hwhole : ∀ c ∈ whole, c.isDigit)
    (hfraction : ∀ ds ∈ fraction, ∀ c ∈ ds, c.isDigit) (hne : whole ++ fraction.getD [] ≠ []) :
    (splitDigits (whole ++ (fractionSpelling fraction ++ rest))).1 ++
      (splitFraction (splitDigits (whole ++ (fractionSpelling fraction ++ rest))).2).1.getD [] ≠
        [] := by
  rw [splitDigits_digits_append hwhole]
  by_cases hempty : whole = []
  · subst hempty
    cases fraction with
    | none => exact absurd rfl hne
    | some ds =>
      have hpoint : splitDigits (fractionSpelling (some ds) ++ rest) = ([], '.' :: (ds ++ rest)) :=
        splitDigits_cons_of_not (by decide)
      rw [hpoint]
      show (splitDigits (ds ++ rest)).1 ≠ []
      rw [splitDigits_digits_append (hfraction ds rfl)]
      exact List.append_ne_nil_of_left_ne_nil hne _
  · exact List.append_ne_nil_of_left_ne_nil (List.append_ne_nil_of_left_ne_nil hempty _) _

theorem sign_split_spelling_append (h : l.WellFormed) (rest : List Char) :
    Sign.split (l.spelling ++ rest) = (l.sign, l.whole ++ (fractionSpelling l.fraction ++
      (ExponentPart.spelling l.exponent ++ rest))) := by
  obtain ⟨sign, whole, fraction, e⟩ := l
  obtain ⟨hwhole, hfraction, -, hne⟩ := h
  have hspelling : (Literal.mk sign whole fraction e).spelling ++ rest = Sign.spelling sign ++
      (whole ++ (fractionSpelling fraction ++ (ExponentPart.spelling e ++ rest))) := by
    simp only [spelling, List.append_assoc]
  rw [hspelling]
  cases whole with
  | cons d ds =>
    refine Sign.split_spelling_append sign ?_
    exact not_mem_signs_of_isDigit (hwhole d List.mem_cons_self)
  | nil =>
    cases fraction with
    | none => exact absurd rfl hne
    | some ds => exact Sign.split_spelling_append sign (by decide)

-- A scan takes at least what is known to be a number, whatever follows it.
theorem exists_split?_spelling_append (h : l.WellFormed) (rest : List Char) :
    ∃ longer remaining, split? (l.spelling ++ rest) = some (longer, remaining) ∧
      remaining <:+ rest := by
  obtain ⟨hwhole, hfraction, he, hne⟩ := id h
  unfold split?
  rw [sign_split_spelling_append h]
  exact ⟨_, _, if_neg (split_digits_ne_nil hwhole hfraction hne),
    remainder_suffix hwhole hfraction he⟩

theorem longestPrefix_of_split? (h : split? cs = some (l, rest)) :
    LongestPrefix Grammar.decimal.matches' cs l.spelling := by
  have happend := spelling_append_of_split? h
  refine ⟨Grammar.mem_decimal.mpr ⟨l, wellFormed_of_split? h, rfl⟩, ⟨rest, happend⟩, ?_⟩
  rintro v hv ⟨rest', rfl⟩
  obtain ⟨l', hl', rfl⟩ := Grammar.mem_decimal.mp hv
  obtain ⟨longer, remaining, hsplit, hsuffix⟩ := exists_split?_spelling_append hl' rest'
  cases h.symm.trans hsplit
  have hlength := congrArg List.length happend
  have hle := hsuffix.length_le
  simp only [List.length_append] at hlength
  omega

theorem not_prefix_of_split?_eq_none {w : List Char} (h : split? cs = none)
    (hw : w ∈ Grammar.decimal.matches') : ¬w <+: cs := by
  rintro ⟨rest, rfl⟩
  obtain ⟨l, hl, rfl⟩ := Grammar.mem_decimal.mp hw
  obtain ⟨longer, remaining, hsplit, -⟩ := exists_split?_spelling_append hl rest
  cases h.symm.trans hsplit

end Literal

end AbsEval
