import AbsEval.Proofs.Arithmetic.Bounds
import AbsEval.Proofs.Conversion.Unary

namespace AbsEval

theorem Value.describes_intsBetween_iff {low high : Int32} {c : Value} (h : low ≤ high) :
    (intsBetween low high).Describes c ↔ ∃ n, c = int n ∧ low ≤ n ∧ n ≤ high := by
  constructor
  · intro hc
    rw [intsBetween_of_le h, normalized] at hc
    split at hc
    · exact ⟨low, hc, Int32.le_refl low, h⟩
    · obtain ⟨n, rfl, hn⟩ := hc
      exact ⟨n, rfl, Interval.contains_iff.mp hn⟩
  · rintro ⟨n, rfl, hlow, hhigh⟩
    exact describes_intsBetween hlow hhigh

-- Both ends of a range of floats must have an integer part of 32 bits.
theorem Value.ends_of_intBounds?_floatRange {range : Interval Double} {bounds : Interval Int32}
    (h : (floatRange range).intBounds? = some bounds) :
    range.start.toInt32? = some bounds.start ∧ range.stop.toInt32? = some bounds.stop := by
  obtain ⟨low, hlow, h⟩ := Option.bind_eq_some_iff.mp h
  obtain ⟨high, hhigh, h⟩ := Option.bind_eq_some_iff.mp h
  unfold Interval.between? at h
  split at h
  · cases h
    exact ⟨hlow, hhigh⟩
  · cases h

namespace Remainder

variable {store : Store} {v c : Value} {dividend divisor member : Operand} {n d low high : Int32}
  {least greatest : Int}

namespace Operand

-- The bounds of an operand that has some. A point has two equal ones.
def span? : Operand → Option (Int32 × Int32)
  | point n => some (n, n)
  | range low high => some (low, high)
  | unknown => none

-- The least and the greatest integer that an operand may be.

def lowest : Operand → Int32
  | point n => n
  | range low _ => low
  | unknown => Int32.minValue

def highest : Operand → Int32
  | point n => n
  | range _ high => high
  | unknown => Int32.maxValue

-- If an operand has bounds, the other one is a point between them.
def Encloses (o member : Operand) : Prop :=
  ∀ low high, o.span? = some (low, high) → ∃ n, member = point n ∧ low ≤ n ∧ n ≤ high

theorem unknown_encloses (member : Operand) : unknown.Encloses member := by
  intro low high h
  cases h

theorem range_encloses (hlow : low ≤ n) (hhigh : n ≤ high) :
    (range low high).Encloses (point n) := by
  intro _ _ h
  cases h
  exact ⟨n, rfl, hlow, hhigh⟩

theorem ofInteger?_encloses (n : Option Int32) : (ofInteger? n).Encloses (ofInteger? n) := by
  cases n with
  | none => exact unknown_encloses _
  | some n => exact range_encloses (Int32.le_refl n) (Int32.le_refl n)

theorem Encloses.ends {o member : Operand} (h : o.Encloses member) :
    o.lowest ≤ member.lowest ∧ member.highest ≤ o.highest := by
  cases o with
  | point n =>
    obtain ⟨m, rfl, hlow, hhigh⟩ := h n n rfl
    exact ⟨hlow, hhigh⟩
  | range low high =>
    obtain ⟨m, rfl, hlow, hhigh⟩ := h low high rfl
    exact ⟨hlow, hhigh⟩
  | unknown => exact ⟨Int32.minValue_le _, Int32.le_maxValue _⟩

end Operand

-- A known value is reduced to the integer it converts to, if it has one.
theorem operand_eq (h : c.isConcrete) (hlong : c.isLongLike = false) :
    (operand store c).result = .ofInteger? (c.integer? store) := by
  cases c with
  | long n => cases hlong
  | intRange range | longRange range | floatRange range | any kind | marker m => cases h
  | _ => rfl

theorem operand_float (x : Double) :
    (operand store (.float x)).result = .ofInteger? x.toInt32? := rfl

theorem encloses_float {x y z : Double} (hx : x.toInt32? = some low) (hy : y.toInt32? = some high)
    (hxz : x ≤ z) (hzy : z ≤ y) :
    (Operand.range low high).Encloses (operand store (.float z)).result := by
  obtain ⟨i, hi, hlow⟩ := Option.bind_eq_some_iff.mp hx
  obtain ⟨j, hj, hhigh⟩ := Option.bind_eq_some_iff.mp hy
  obtain ⟨k, hk, hik, hkj⟩ := Double.exists_truncate?_between hi hj hxz hzy
  obtain ⟨n, hn, hln, hnh⟩ := exists_int32?_between hlow hhigh hik hkj
  have hz : z.toInt32? = some n := Option.bind_eq_some_iff.mpr ⟨k, hk, hn⟩
  rw [operand_float, hz]
  exact Operand.range_encloses hln hnh

-- Any value is reduced to bounds of what its members are reduced to.
theorem operand_encloses (h : v.Admits c) :
    (operand store v).result.Encloses (operand store c).result := by
  have hself : ∀ c : Value, c.isConcrete → c.isLongLike = false →
      (operand store c).result.Encloses (operand store c).result := by
    intro c hc hlong
    rw [operand_eq hc hlong]
    exact Operand.ofInteger?_encloses _
  rcases h with h | ⟨x, y, rfl, rfl, hxy⟩
  · cases v with
    | intRange range =>
      obtain ⟨n, rfl, hn⟩ := h
      obtain ⟨hlow, hhigh⟩ := Interval.contains_iff.mp hn
      exact Operand.range_encloses hlow hhigh
    | floatRange range =>
      obtain ⟨x, rfl, hx⟩ := h
      obtain ⟨hlow, hhigh⟩ := Interval.contains_iff.mp hx
      have hoperand : (operand store (.floatRange range)).result =
          (Value.floatRange range).intBounds?.elim .unknown
            fun bounds => .range bounds.start bounds.stop := rfl
      rw [hoperand]
      cases hbounds : (Value.floatRange range).intBounds? with
      | none => exact Operand.unknown_encloses _
      | some bounds =>
        obtain ⟨hstart, hstop⟩ := Value.ends_of_intBounds?_floatRange hbounds
        exact encloses_float hstart hstop hlow hhigh
    | any kind =>
      cases kind with
      | boolean =>
        obtain ⟨b, rfl⟩ := Value.exists_bool_of_describes h
        cases b <;> exact Operand.range_encloses (by decide) (by decide)
      | integer =>
        obtain ⟨n, rfl⟩ := Value.exists_int_of_describes h
        exact Operand.range_encloses (Int32.minValue_le n) (Int32.le_maxValue n)
      | array =>
        obtain ⟨id, rfl⟩ := Value.exists_array_of_describes h
        have hpoint : (operand store (.array id)).result =
            .point (!store.isEmptyArray id).toInt32 := rfl
        rw [hpoint]
        cases store.isEmptyArray id <;> exact Operand.range_encloses (by decide) (by decide)
      | _ => exact Operand.unknown_encloses _
    | long n | longRange range => exact Operand.unknown_encloses _
    | marker m => exact h.elim
    | _ =>
      obtain rfl := h
      exact hself _ rfl rfl
  · -- Two zeros have the same integer part.
    rw [operand_float x]
    cases hx : x.toInt32? with
    | none => exact Operand.unknown_encloses _
    | some n =>
      exact encloses_float hx hx (Double.le_of_numEq hxy)
        (Double.le_of_numEq (Double.numEq_symm hxy))

theorem lowest_le_highest (store : Store) (v : Value) :
    (operand store v).result.lowest ≤ (operand store v).result.highest := by
  have hself : ∀ c : Value, c.isConcrete → c.isLongLike = false →
      (operand store c).result.lowest ≤ (operand store c).result.highest := by
    intro c hc hlong
    rw [operand_eq hc hlong]
    cases c.integer? store with
    | none => exact Int32.minValue_le _
    | some n => exact Int32.le_refl n
  have hbounds : ∀ bounds : Option (Interval Int32),
      (bounds.elim Operand.unknown fun i => .range i.start i.stop).lowest ≤
        (bounds.elim Operand.unknown fun i => .range i.start i.stop).highest := by
    intro bounds
    cases bounds with
    | none => exact Int32.minValue_le _
    | some i => exact i.ordered
  cases v with
  | intRange range => exact range.ordered
  | floatRange range => exact hbounds (Value.floatRange range).intBounds?
  | any kind =>
    cases kind with
    | boolean | array => exact (by decide : (0 : Int32) ≤ 1)
    | _ => exact Int32.minValue_le _
  | long n | longRange range | marker m => exact Int32.minValue_le _
  | _ => exact hself _ rfl rfl

-- A divisor whose bounds leave zero out has a least and a greatest magnitude.
theorem magnitudes?_eq_some_iff : magnitudes? divisor = some (least, greatest) ↔
    ∃ low high, divisor.span? = some (low, high) ∧ (0 < low ∨ high < 0) ∧
      least = min low.toInt.natAbs high.toInt.natAbs ∧
      greatest = max low.toInt.natAbs high.toInt.natAbs := by
  cases divisor with
  | point n =>
    have hsides : 0 < n ∨ n < 0 ↔ n ≠ 0 := by
      rw [Int32.lt_iff_toInt_lt, Int32.lt_iff_toInt_lt, ne_eq, ← Int32.toInt_inj]
      simp only [Int32.toInt_zero]
      omega
    simp only [magnitudes?, Operand.span?, Option.some.injEq, Prod.mk.injEq]
    constructor
    · intro h
      split at h
      · cases h
      · next hzero =>
        cases h
        exact ⟨n, n, ⟨rfl, rfl⟩, hsides.mpr hzero, by simp, by simp⟩
    · rintro ⟨_, _, ⟨rfl, rfl⟩, hzero, rfl, rfl⟩
      rw [if_neg (hsides.mp hzero)]
      simp
  | range low high =>
    simp only [magnitudes?, Operand.span?, Option.some.injEq, Prod.mk.injEq]
    constructor
    · intro h
      split at h
      · next hzero =>
        cases h
        exact ⟨low, high, ⟨rfl, rfl⟩, hzero, by simp, by simp⟩
      · cases h
    · rintro ⟨_, _, ⟨rfl, rfl⟩, hzero, rfl, rfl⟩
      rw [if_pos hzero]
      simp
  | unknown =>
    constructor
    · intro h
      cases h
    · rintro ⟨_, _, h, -⟩
      cases h

-- The remainders of the dividends from `low` to `high` lie between these ends, if the magnitudes of
-- the divisors are from `least` to `greatest`.

def lowerEnd (low high least greatest : Int) : Int :=
  if low.natAbs < least ∧ high.natAbs < least then low
  else if low < 0 then -(min (greatest - 1) (-low)) else 0

def upperEnd (low high least greatest : Int) : Int :=
  if low.natAbs < least ∧ high.natAbs < least then high
  else if 0 < high then min (greatest - 1) high else 0

section Ends

variable {i j i' j' k least' greatest' : Int}

-- The ends are wider for more dividends and for more divisors.

theorem lowerEnd_le_lowerEnd (hi : i ≤ i') (hle : i' ≤ j') (hj : j' ≤ j) (hpos : 0 < least)
    (hleast : least ≤ least') (hordered : least' ≤ greatest')
    (hgreatest : greatest' ≤ greatest) :
    lowerEnd i j least greatest ≤ lowerEnd i' j' least' greatest' := by
  unfold lowerEnd
  omega

theorem upperEnd_le_upperEnd (hi : i ≤ i') (hle : i' ≤ j') (hj : j' ≤ j) (hpos : 0 < least)
    (hleast : least ≤ least') (hordered : least' ≤ greatest') (hgreatest : greatest' ≤ greatest) :
    upperEnd i' j' least' greatest' ≤ upperEnd i j least greatest := by
  unfold upperEnd
  omega

theorem natAbs_lt_of_between (hordered : least ≤ greatest) (hpos : 0 < greatest)
    (hlow : lowerEnd i j least greatest ≤ k) (hhigh : k ≤ upperEnd i j least greatest) :
    k.natAbs < greatest := by
  unfold lowerEnd at hlow
  unfold upperEnd at hhigh
  omega

-- A remainder has the sign of the dividend and is smaller than the divisor. It is the dividend if
-- this is smaller already.
theorem tmod_between (n : Int) {d : Int} (hd : d ≠ 0) :
    lowerEnd n n d.natAbs d.natAbs ≤ n.tmod d ∧ n.tmod d ≤ upperEnd n n d.natAbs d.natAbs := by
  have hmagnitude := Int.natAbs_tmod n d
  have hbelow := Nat.mod_lt n.natAbs (show 0 < d.natAbs by omega)
  have hle := Nat.mod_le n.natAbs d.natAbs
  have hsmall : n.natAbs < d.natAbs → n.natAbs % d.natAbs = n.natAbs := Nat.mod_eq_of_lt
  have hnonneg : 0 ≤ n → 0 ≤ n.tmod d := Int.tmod_nonneg d
  have hnonpos : n ≤ 0 → n.tmod d ≤ 0 := by
    intro hn
    have hneg := Int.tmod_nonneg d (Int.neg_nonneg_of_nonpos hn)
    rw [Int.neg_tmod] at hneg
    omega
  unfold lowerEnd upperEnd
  omega

end Ends

-- What the bounds of a remainder are, and that they are always 32-bit integers.
theorem bounds_spec (hle : low ≤ high) (hleast : 0 < least) (hordered : least ≤ greatest)
    (hlimit : greatest ≤ 2 ^ 31) :
    (bounds low.toInt high.toInt least greatest).isBounded ∧
      ∀ c, (bounds low.toInt high.toInt least greatest).Describes c ↔
        ∃ n, c = .int n ∧ lowerEnd low.toInt high.toInt least greatest ≤ n.toInt ∧
          n.toInt ≤ upperEnd low.toInt high.toInt least greatest := by
  rw [Int32.le_iff_toInt_le] at hle
  have hlow := low.le_toInt
  have hhigh := high.toInt_lt
  have hends : -2 ^ 31 ≤ lowerEnd low.toInt high.toInt least greatest ∧
      lowerEnd low.toInt high.toInt least greatest ≤ upperEnd low.toInt high.toInt least greatest ∧
      upperEnd low.toInt high.toInt least greatest < 2 ^ 31 := by
    unfold lowerEnd upperEnd
    omega
  have hbounds : bounds low.toInt high.toInt least greatest =
      integersBetween (lowerEnd low.toInt high.toInt least greatest)
        (upperEnd low.toInt high.toInt least greatest) := by
    unfold bounds lowerEnd upperEnd
    split <;> rfl
  rw [hbounds]
  generalize lowerEnd low.toInt high.toInt least greatest = i at hends
  generalize upperEnd low.toInt high.toInt least greatest = j at hends
  obtain ⟨start, hstart⟩ := exists_int32? (by omega : -2 ^ 31 ≤ i) (by omega)
  obtain ⟨stop, hstop⟩ := exists_int32? (by omega : -2 ^ 31 ≤ j) (by omega)
  obtain rfl := toInt_of_int32?_eq_some hstart
  obtain rfl := toInt_of_int32?_eq_some hstop
  have hss : start ≤ stop := Int32.le_iff_toInt_le.mpr hends.2.1
  simp only [integersBetween, hstart, hstop, ← Int32.le_iff_toInt_le]
  exact ⟨Value.isBounded_intsBetween hss, fun c => Value.describes_intsBetween_iff hss⟩

theorem bounds_covers_bounds {low' high' : Int32} {least' greatest' : Int}
    (hlow : low ≤ low') (hle : low' ≤ high') (hhigh : high' ≤ high) (hpos : 0 < least)
    (hleast : least ≤ least') (hordered : least' ≤ greatest') (hgreatest : greatest' ≤ greatest)
    (hlimit : greatest ≤ 2 ^ 31) :
    (bounds low.toInt high.toInt least greatest).Covers
      (bounds low'.toInt high'.toInt least' greatest') := by
  have hall := Int32.le_trans hlow (Int32.le_trans hle hhigh)
  obtain ⟨-, hwide⟩ := bounds_spec hall hpos (by omega) hlimit
  obtain ⟨-, hnarrow⟩ := bounds_spec hle (by omega : 0 < least') hordered (by omega)
  rw [Int32.le_iff_toInt_le] at hlow hle hhigh
  have hstart := lowerEnd_le_lowerEnd hlow hle hhigh hpos hleast hordered hgreatest
  have hstop := upperEnd_le_upperEnd hlow hle hhigh hpos hleast hordered hgreatest
  intro c hc
  obtain ⟨n, rfl, hln, hnh⟩ := (hnarrow c).mp hc
  exact (hwide _).mpr ⟨n, rfl, by omega, by omega⟩

theorem describes_bounds_self (n : Int32) (hd : d ≠ 0) :
    (bounds n.toInt n.toInt d.toInt.natAbs d.toInt.natAbs).Describes (.int (n % d)) := by
  have hd' : d.toInt ≠ 0 := fun h => hd (Int32.toInt_inj.mp h)
  have hpos : (0 : Int) < d.toInt.natAbs := by omega
  have hlimit := Double.natAbs_toInt_le d
  obtain ⟨-, hbounds⟩ := bounds_spec (Int32.le_refl n) hpos (Int.le_refl _) (by omega)
  refine (hbounds _).mpr ⟨n % d, rfl, ?_⟩
  rw [Int32.toInt_mod]
  exact tmod_between n.toInt hd'

-- Two points have a remainder, all other operands its bounds.

theorem magnitudes?_point (hd : d ≠ 0) :
    magnitudes? (.point d) = some ((d.toInt.natAbs : Int), (d.toInt.natAbs : Int)) :=
  if_neg hd

theorem result_ofOperands_points (n : Int32) (hd : d ≠ 0) :
    (ofOperands (.point n) (.point d)).result = .int (n % d) := by
  unfold ofOperands
  rw [magnitudes?_point hd]
  rfl

theorem result_ofOperands (dividend : Operand) (h : magnitudes? divisor = some (least, greatest))
    (hpoints : ¬∃ n d, dividend = .point n ∧ divisor = .point d) :
    (ofOperands dividend divisor).result =
      bounds dividend.lowest.toInt dividend.highest.toInt least greatest := by
  unfold ofOperands
  rw [h]
  cases dividend with
  | point n =>
    cases divisor with
    | point d => exact absurd ⟨n, d, rfl, rfl⟩ hpoints
    | _ => rfl
  | _ => rfl

theorem bounds_covers_ofOperands (dividend : Operand) (hd : d ≠ 0) :
    (bounds dividend.lowest.toInt dividend.highest.toInt d.toInt.natAbs d.toInt.natAbs).Covers
      (ofOperands dividend (.point d)).result := by
  by_cases hpoint : ∃ n, dividend = .point n
  · obtain ⟨n, rfl⟩ := hpoint
    rw [result_ofOperands_points n hd]
    exact Value.covers_of_describes rfl (describes_bounds_self n hd)
  · have hpoints : ¬∃ n d', dividend = .point n ∧ Operand.point d = .point d' := by
      rintro ⟨n, -, hn, -⟩
      exact hpoint ⟨n, hn⟩
    rw [result_ofOperands dividend (magnitudes?_point hd) hpoints]
    exact Value.covers_refl _

-- The magnitude of a divisor lies between those of its bounds, on either side of zero.
theorem natAbs_between (hzero : 0 < low ∨ high < 0) (hlow : low ≤ d) (hhigh : d ≤ high) :
    d ≠ 0 ∧ 0 < min low.toInt.natAbs high.toInt.natAbs ∧
      min low.toInt.natAbs high.toInt.natAbs ≤ d.toInt.natAbs ∧
      d.toInt.natAbs ≤ max low.toInt.natAbs high.toInt.natAbs := by
  rw [Int32.lt_iff_toInt_lt, Int32.lt_iff_toInt_lt, Int32.toInt_zero] at hzero
  rw [Int32.le_iff_toInt_le] at hlow hhigh
  refine ⟨?_, by omega, by omega, by omega⟩
  rintro rfl
  rw [Int32.toInt_zero] at hlow hhigh
  omega

theorem ofOperands_covers {p q : Operand} (hl : dividend.Encloses p) (hp : p.lowest ≤ p.highest)
    (hr : divisor.Encloses q) :
    (ofOperands dividend divisor).result.Covers (ofOperands p q).result := by
  cases hmagnitudes : magnitudes? divisor with
  | none =>
    cases divisor with
    | point d =>
      obtain ⟨_, rfl, hlow, hhigh⟩ := hr d d rfl
      obtain rfl := Int32.le_antisymm hlow hhigh
      unfold ofOperands
      rw [hmagnitudes]
      exact Value.covers_refl _
    | _ =>
      unfold ofOperands
      rw [hmagnitudes]
      exact Value.any_value_covers _
  | some magnitudes =>
    obtain ⟨low, high, hspan, hzero, hleast, hgreatest⟩ := magnitudes?_eq_some_iff.mp hmagnitudes
    obtain ⟨d, rfl, hlow, hhigh⟩ := hr low high hspan
    obtain ⟨hd, hpos, hmin, hmax⟩ := natAbs_between hzero hlow hhigh
    by_cases hpoints : ∃ n d, dividend = .point n ∧ divisor = .point d
    · obtain ⟨n, d', rfl, rfl⟩ := hpoints
      cases hspan
      obtain ⟨_, rfl, hn, hn'⟩ := hl n n rfl
      obtain rfl := Int32.le_antisymm hn hn'
      obtain rfl := Int32.le_antisymm hlow hhigh
      exact Value.covers_refl _
    · obtain ⟨hlowest, hhighest⟩ := hl.ends
      have hlimit := Double.natAbs_toInt_le low
      have hlimit' := Double.natAbs_toInt_le high
      rw [result_ofOperands dividend hmagnitudes hpoints]
      refine Value.covers_trans ?_ (bounds_covers_ofOperands p hd)
      apply bounds_covers_bounds hlowest hp hhighest <;> omega

-- A remainder stays below the greatest magnitude of a divisor that is never zero.
theorem isBounded_ofOperands (hl : dividend.lowest ≤ dividend.highest)
    (hr : divisor.lowest ≤ divisor.highest) (hspan : divisor.span? = some (low, high))
    (hzero : 0 < low ∨ high < 0) :
    (ofOperands dividend divisor).result.isBounded ∧
      ∀ c, (ofOperands dividend divisor).result.Describes c →
        ∃ n, c = .int n ∧ n.toInt.natAbs < max low.toInt.natAbs high.toInt.natAbs := by
  have hmagnitudes := magnitudes?_eq_some_iff.mpr ⟨low, high, hspan, hzero, rfl, rfl⟩
  have hle : low ≤ high := by
    cases divisor <;> cases hspan <;> exact hr
  obtain ⟨hlow, hpos, -⟩ := natAbs_between hzero (Int32.le_refl low) hle
  by_cases hpoints : ∃ n d, dividend = .point n ∧ divisor = .point d
  · obtain ⟨n, d, rfl, rfl⟩ := hpoints
    cases hspan
    rw [result_ofOperands_points n hlow]
    refine ⟨rfl, fun c hc => ⟨n % low, hc, ?_⟩⟩
    rw [Int32.toInt_mod, Int.natAbs_tmod, Nat.max_self]
    exact Nat.mod_lt _ (by omega)
  · have hlimit := Double.natAbs_toInt_le low
    have hlimit' := Double.natAbs_toInt_le high
    rw [result_ofOperands dividend hmagnitudes hpoints]
    obtain ⟨hbounded, hmembers⟩ := bounds_spec hl
      (by omega : 0 < ((min low.toInt.natAbs high.toInt.natAbs : Nat) : Int))
      (by omega : _ ≤ ((max low.toInt.natAbs high.toInt.natAbs : Nat) : Int)) (by omega)
    refine ⟨hbounded, fun c hc => ?_⟩
    obtain ⟨n, rfl, hln, hnh⟩ := (hmembers c).mp hc
    have hbelow := natAbs_lt_of_between (by omega) (by omega) hln hnh
    exact ⟨n, rfl, by omega⟩

end Remainder

namespace Eval

variable (options : Options) (state : State) {l r : Value}

theorem run_modulo (hl : l.isOperand) (hr : r.isOperand) :
    ((binary l .modulo r).run options state).1 =
      .ok (Remainder.apply state.store l.normalized r.normalized).result := by
  change ((guarded l.normalized r.normalized
    (getStore >>= fun store => note (Remainder.apply store _ _))).run options state).1 = _
  rw [run_guarded options state _ (Value.isOperand_normalized hl) (Value.isOperand_normalized hr)]
  rfl

-- What a remainder is found to be covers the remainders of all members of the operands. If the
-- divisor is never zero, it is an integer or a range of integers smaller than the divisor.
theorem modulo_covers (hl : l.isOperand) (hr : r.isOperand) :
    ∃ v, ((binary l .modulo r).run options state).1 = .ok v ∧
      (∀ l' r', l.Describes l' → r.Describes r' → l'.isLongLike = false → r'.isLongLike = false →
        ∃ c, ((binary l' .modulo r').run options state).1 = .ok c ∧ v.Covers c) ∧
      ∀ low high, (Remainder.operand state.store r.normalized).result.span? = some (low, high) →
        0 < low ∨ high < 0 → v.isBounded ∧ ∀ c, v.Describes c →
          ∃ n, c = .int n ∧ n.toInt.natAbs < max low.toInt.natAbs high.toInt.natAbs := by
  refine ⟨_, run_modulo options state hl hr, ?_, ?_⟩
  · intro l' r' hl' hr' hlong hlong'
    have hlo := isOperand_of_describes hl' (by simp [hlong])
    have hro := isOperand_of_describes hr' (by simp [hlong'])
    refine ⟨_, run_modulo options state hlo hro, ?_⟩
    rw [Value.normalized_of_isConcrete (Value.isConcrete_of_describes hl'),
      Value.normalized_of_isConcrete (Value.isConcrete_of_describes hr')]
    exact Remainder.ofOperands_covers
      (Remainder.operand_encloses (Value.admits_normalized hl'))
      (Remainder.lowest_le_highest state.store l')
      (Remainder.operand_encloses (Value.admits_normalized hr'))
  · intro low high hspan hzero
    exact Remainder.isBounded_ofOperands (Remainder.lowest_le_highest state.store l.normalized)
      (Remainder.lowest_le_highest state.store r.normalized) hspan hzero

def belowZero : Interval Int32 := ⟨-2147483648, -1, by decide⟩

-- Dividends and divisors down to the least integer, which has no positive counterpart.
theorem modulo_covers_belowZero :
    (Value.intRange upToSix).isOperand ∧ (Value.intRange belowZero).isOperand ∧
      (Value.intRange upToSix).Describes (.int (-2147483648)) ∧
      (Value.intRange belowZero).Describes (.int (-1)) ∧
      (Value.intRange upToSix).Describes (.int 5) ∧
      (Value.intRange belowZero).Describes (.int (-3)) ∧
      (Remainder.operand .empty (Value.intRange belowZero).normalized).result.span? =
        some (-2147483648, -1) ∧
      ∃ v, ((binary (.intRange upToSix) .modulo (.intRange belowZero)).run {} .initial).1 = .ok v ∧
        (((binary (.int (-2147483648)) .modulo (.int (-1))).run {} .initial).1 = .ok (.int 0) ∧
          v.Covers (.int 0)) ∧
        (((binary (.int 5) .modulo (.int (-3))).run {} .initial).1 = .ok (.int 2) ∧
          v.Covers (.int 2)) ∧
        v.isBounded ∧ ∀ c, v.Describes c → ∃ n, c = .int n ∧ n.toInt.natAbs < 2147483648 := by
  have hl : (Value.intRange upToSix).Describes (.int (-2147483648)) := ⟨_, rfl, by decide⟩
  have hr : (Value.intRange belowZero).Describes (.int (-1)) := ⟨_, rfl, by decide⟩
  have hspan : (Remainder.operand .empty (Value.intRange belowZero).normalized).result.span? =
      some (-2147483648, -1) := by
    decide +kernel
  obtain ⟨v, hv, hmembers, hbounded⟩ := modulo_covers {} .initial
    (l := .intRange upToSix) (r := .intRange belowZero) rfl rfl
  have hfive : (Value.intRange upToSix).Describes (.int 5) := ⟨_, rfl, by decide⟩
  have hthree : (Value.intRange belowZero).Describes (.int (-3)) := ⟨_, rfl, by decide⟩
  have hzero : ((binary (.int (-2147483648)) .modulo (.int (-1))).run {} .initial).1 =
      .ok (.int 0) := by
    decide +kernel
  have htwo : ((binary (.int 5) .modulo (.int (-3))).run {} .initial).1 = .ok (.int 2) := by
    decide +kernel
  obtain ⟨hint, hbelow⟩ := hbounded _ _ hspan (.inr (by decide))
  obtain ⟨c, hc, hcovers⟩ := hmembers _ _ hl hr rfl rfl
  obtain ⟨d, hd, hcovers'⟩ := hmembers _ _ hfive hthree rfl rfl
  obtain rfl := Except.ok.inj (hc.symm.trans hzero)
  obtain rfl := Except.ok.inj (hd.symm.trans htwo)
  exact ⟨rfl, rfl, hl, hr, hfive, hthree, hspan, v, hv, ⟨hzero, hcovers⟩, ⟨htwo, hcovers'⟩, hint,
    hbelow⟩

end Eval

end AbsEval
