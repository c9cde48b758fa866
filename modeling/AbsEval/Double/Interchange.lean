import AbsEval.Double.Order

namespace AbsEval.Double

-- The 64-bit interchange format: a sign bit, eleven bits of exponent, 52 bits of fraction.

def ofFields (negative : Bool) (exponent fraction : Nat) (h : fraction < 2 ^ 52) : Double :=
  if exponent = 2047 then
    if hzero : fraction = 0 then infinite negative
    else notANumber negative fraction ⟨Nat.pos_of_ne_zero hzero, h⟩
  else if exponent = 0 then
    ofUnits negative fraction 1
  else
    ofUnits negative ((2 ^ 52 + fraction) * 2 ^ (exponent - 1)) 1

def ofBits (bits : UInt64) : Double :=
  ofFields (bits.toNat / 2 ^ 63 == 1) (bits.toNat / 2 ^ 52 % 2 ^ 11) (bits.toNat % 2 ^ 52)
    (Nat.mod_lt _ (by decide))

-- Exponent and fraction fields of a magnitude, as one number. The leading one of a normal
-- significand carries into the exponent field and so counts it up from the spacing.
def magnitudeBits (units : Nat) : Nat :=
  spacing units * 2 ^ 52 + units / 2 ^ spacing units

-- The two fields behind the sign.
def fields : Double → Nat
  | notANumber _ payload _ => 2047 * 2 ^ 52 + payload
  | infinite _ => 2047 * 2 ^ 52
  | finite _ units _ => magnitudeBits units

def isNegative : Double → Bool
  | notANumber negative _ _ | infinite negative | finite negative _ _ => negative

def toBits (x : Double) : UInt64 :=
  UInt64.ofNat ((if x.isNegative then 2 ^ 63 else 0) + x.fields)

variable {units exponent fraction : Nat} {negative : Bool} {bits : UInt64}

-- Below `2 ^ 52` units the significand is the magnitude itself.
theorem magnitudeBits_of_lt (h : units < 2 ^ 52) : magnitudeBits units = units := by
  have hspacing : spacing units = 0 :=
    Nat.le_zero.mp (spacing_le_of_lt (Nat.lt_of_lt_of_le h (by decide)))
  rw [magnitudeBits, hspacing, Nat.pow_zero, Nat.div_one, Nat.zero_mul, Nat.zero_add]

-- From there on it has 53 bits, and its leading one is counted with the exponent.
theorem magnitudeBits_mul {s : Nat} (h : fraction < 2 ^ 52) :
    magnitudeBits ((2 ^ 52 + fraction) * 2 ^ s) = (s + 1) * 2 ^ 52 + fraction := by
  have hne : (2 ^ 52 + fraction) * 2 ^ s ≠ 0 :=
    Nat.mul_ne_zero (by omega) (Nat.ne_of_gt (Nat.two_pow_pos s))
  have hlog : ((2 ^ 52 + fraction) * 2 ^ s).log2 = 52 + s := by
    refine (Nat.log2_eq_iff hne).mpr ⟨?_, ?_⟩
    · rw [Nat.pow_add]
      exact Nat.mul_le_mul_right _ (Nat.le_add_right _ _)
    · rw [Nat.add_right_comm, Nat.pow_add]
      exact Nat.mul_lt_mul_of_pos_right (by omega) (Nat.two_pow_pos s)
  have hspacing : spacing ((2 ^ 52 + fraction) * 2 ^ s) = s := by
    rw [spacing, hlog]
    omega
  rw [magnitudeBits, hspacing, Nat.mul_div_cancel _ (Nat.two_pow_pos s)]
  omega

-- So a magnitude has one of these two forms.
theorem representable_cases (h : Representable units) :
    units < 2 ^ 52 ∨
      ∃ s fraction, s < 2046 ∧ fraction < 2 ^ 52 ∧ units = (2 ^ 52 + fraction) * 2 ^ s := by
  rcases Nat.lt_or_ge units (2 ^ 52) with hlt | hge
  · exact .inl hlt
  · right
    have hne : units ≠ 0 := Nat.ne_of_gt (Nat.lt_of_lt_of_le (by decide) hge)
    have hlog : units.log2 < 2098 := by
      refine Nat.lt_of_not_le fun hle => ?_
      have hpow : unitLimit ≤ 2 ^ units.log2 := by
        unfold unitLimit
        exact @Nat.pow_le_pow_right 2 Nat.two_pos 2098 _ hle
      exact Nat.not_lt_of_le (Nat.le_trans hpow (Nat.log2_self_le hne)) h.1
    have hlog' : 52 ≤ units.log2 := (Nat.le_log2 hne).mpr hge
    obtain ⟨m, hm⟩ := h.2
    have hpos := Nat.two_pow_pos (spacing units)
    have hdiv : units / 2 ^ spacing units = m := Nat.div_eq_of_eq_mul_right hpos hm
    -- The quotient keeps the 53 leading bits.
    have hlow : 2 ^ 52 ≤ m := by
      rw [← hdiv, Nat.le_div_iff_mul_le hpos, ← Nat.pow_add]
      exact Nat.le_trans (Nat.pow_le_pow_right (by decide) (by unfold spacing; omega))
        (Nat.log2_self_le hne)
    have hhigh : m < 2 ^ 53 := by
      rw [← hdiv, Nat.div_lt_iff_lt_mul hpos, ← Nat.pow_add]
      exact lt_two_pow_spacing units
    refine ⟨spacing units, m - 2 ^ 52, by unfold spacing; omega, by omega, ?_⟩
    rw [Nat.add_sub_cancel' hlow, Nat.mul_comm]
    exact hm

theorem fields_lt (x : Double) : x.fields < 2 ^ 63 := by
  cases x with
  | notANumber negative payload fits =>
    have hpayload := fits.2
    show 2047 * 2 ^ 52 + payload < 2 ^ 63
    omega
  | infinite negative =>
    show 2047 * 2 ^ 52 < 2 ^ 63
    decide
  | finite negative units fits =>
    show magnitudeBits units < 2 ^ 63
    rcases representable_cases fits with hlt | ⟨s, fraction, hs, hfraction, rfl⟩
    · rw [magnitudeBits_of_lt hlt]
      omega
    · rw [magnitudeBits_mul hfraction]
      omega

theorem toNat_toBits (x : Double) :
    x.toBits.toNat = (if x.isNegative then 2 ^ 63 else 0) + x.fields := by
  have hfields := x.fields_lt
  refine UInt64.toNat_ofNat_of_lt ?_
  show _ < 2 ^ 64
  split <;> omega

-- Reading the three fields.
theorem ofBits_of_fields
    (hbits : bits.toNat = (if negative then 2 ^ 63 else 0) + (exponent * 2 ^ 52 + fraction))
    (hexponent : exponent ≤ 2047) (hfraction : fraction < 2 ^ 52) :
    ofBits bits = ofFields negative exponent fraction hfraction := by
  have hfirst : (bits.toNat / 2 ^ 63 == 1) = negative := by
    cases negative with
    | false => exact beq_false_of_ne (by simp only [Bool.false_eq_true, if_false] at hbits; omega)
    | true => exact beq_iff_eq.mpr (by simp only [if_true] at hbits; omega)
  have hsecond : bits.toNat / 2 ^ 52 % 2 ^ 11 = exponent := by
    split at hbits <;> omega
  have hthird : bits.toNat % 2 ^ 52 = fraction := by
    split at hbits <;> omega
  subst hfirst hsecond hthird
  rfl

-- Numbers with at most 53 bits are not rounded.
theorem isNegative_and_fields_ofUnits (negative : Bool) (h : Representable units) :
    (ofUnits negative units 1).isNegative = negative ∧
      (ofUnits negative units 1).fields = magnitudeBits units := by
  rw [ofUnits_of_representable negative h]
  exact ⟨rfl, rfl⟩

theorem isNegative_and_fields_ofFields (negative : Bool) (hexponent : exponent ≤ 2047)
    (hfraction : fraction < 2 ^ 52) :
    (ofFields negative exponent fraction hfraction).isNegative = negative ∧
      (ofFields negative exponent fraction hfraction).fields = exponent * 2 ^ 52 + fraction := by
  unfold ofFields
  split
  · next hlast =>
    subst hlast
    split
    · next hzero =>
      subst hzero
      exact ⟨rfl, rfl⟩
    · exact ⟨rfl, rfl⟩
  · split
    · next hfirst =>
      have hone : fraction * 2 ^ 0 = fraction := Nat.mul_one fraction
      have hfits : Representable fraction :=
        hone ▸ representable_mul_two_pow (Nat.lt_trans hfraction (by decide)) (by decide)
      obtain ⟨hnegative, hfields⟩ := isNegative_and_fields_ofUnits negative hfits
      refine ⟨hnegative, ?_⟩
      rw [hfields, magnitudeBits_of_lt hfraction, hfirst, Nat.zero_mul, Nat.zero_add]
    · have hfits : Representable ((2 ^ 52 + fraction) * 2 ^ (exponent - 1)) :=
        representable_mul_two_pow (by omega) (by omega)
      obtain ⟨hnegative, hfields⟩ := isNegative_and_fields_ofUnits negative hfits
      refine ⟨hnegative, ?_⟩
      rw [hfields, magnitudeBits_mul hfraction, Nat.sub_add_cancel (by omega)]

-- The encoding is read back, with the sign and the payload of NaN.
theorem ofBits_toBits (x : Double) : ofBits x.toBits = x := by
  have hbits := toNat_toBits x
  cases x with
  | notANumber negative payload fits =>
    rw [ofBits_of_fields hbits (by omega) fits.2, ofFields, if_pos rfl,
      dif_neg (Nat.ne_of_gt fits.1)]
    rfl
  | infinite negative =>
    have hzero : (infinite negative).toBits.toNat =
        (if negative then 2 ^ 63 else 0) + (2047 * 2 ^ 52 + 0) := hbits
    rw [ofBits_of_fields hzero (by omega) (by decide), ofFields, if_pos rfl, dif_pos rfl]
  | finite negative units fits =>
    have hunits := ofUnits_of_representable negative fits
    rw [fields] at hbits
    rcases representable_cases fits with hlt | ⟨s, fraction, hs, hfraction, rfl⟩
    · have hzero : magnitudeBits units = 0 * 2 ^ 52 + units := by
        rw [magnitudeBits_of_lt hlt, Nat.zero_mul, Nat.zero_add]
      rw [hzero] at hbits
      rw [ofBits_of_fields hbits (by omega) hlt, ofFields, if_neg (by decide), if_pos rfl]
      exact hunits
    · rw [magnitudeBits_mul hfraction] at hbits
      rw [ofBits_of_fields hbits (by omega) hfraction, ofFields, if_neg (by omega),
        if_neg (by omega), Nat.add_sub_cancel]
      exact hunits

-- Every encoding is that of a number.
theorem toBits_ofBits (bits : UInt64) : (ofBits bits).toBits = bits := by
  have hexponent : bits.toNat / 2 ^ 52 % 2 ^ 11 ≤ 2047 := by omega
  obtain ⟨hnegative, hfields⟩ := isNegative_and_fields_ofFields (bits.toNat / 2 ^ 63 == 1)
    hexponent (Nat.mod_lt bits.toNat (by decide))
  have hlt : bits.toNat < 2 ^ 64 := bits.toNat_lt
  rw [← UInt64.toNat_inj, toNat_toBits, ofBits, hnegative, hfields]
  split
  · next h =>
    rw [beq_iff_eq] at h
    omega
  · next h =>
    rw [beq_iff_eq] at h
    omega

theorem toBits_inj {x y : Double} : x.toBits = y.toBits ↔ x = y :=
  ⟨fun h => by rw [← ofBits_toBits x, h, ofBits_toBits y], fun h => h ▸ rfl⟩

end AbsEval.Double
