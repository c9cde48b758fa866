namespace AbsEval

-- A power of a number is the one of the core library, also where an algebra library is imported
-- that has its own.
attribute [scoped instance (high), default_instance 10100] instPowNat

-- The signed integers of one width.
class Word (ω : Type) [LE ω] [Complement ω] where
  toInt : ω → Int
  least : ω
  greatest : ω
  ofIntLE (n : Int) : toInt least ≤ n → n ≤ toInt greatest → ω
  toInt_ofIntLE (n : Int) (hlow : toInt least ≤ n) (hhigh : n ≤ toInt greatest) :
    toInt (ofIntLE n hlow hhigh) = n
  toInt_inj {v w : ω} : toInt v = toInt w ↔ v = w
  toInt_least_le (w : ω) : toInt least ≤ toInt w
  toInt_le_greatest (w : ω) : toInt w ≤ toInt greatest
  toInt_complement (w : ω) : toInt (~~~w) = -toInt w - 1
  complement_least : ~~~least = greatest
  le_iff_toInt_le {v w : ω} : v ≤ w ↔ toInt v ≤ toInt w

instance : Word Int32 where
  toInt := Int32.toInt
  least := Int32.minValue
  greatest := Int32.maxValue
  ofIntLE := Int32.ofIntLE
  toInt_ofIntLE _ _ _ := Int32.toInt_ofIntLE
  toInt_inj := Int32.toInt_inj
  toInt_least_le := Int32.minValue_le_toInt
  toInt_le_greatest := Int32.toInt_le
  toInt_complement w := by
    have hlow := w.le_toInt
    have hhigh := w.toInt_lt
    rw [Int32.toInt_not]
    exact Int.bmod_eq_of_le (by omega) (by omega)
  complement_least := by decide
  le_iff_toInt_le := Int32.le_iff_toInt_le

instance : Word Int64 where
  toInt := Int64.toInt
  least := Int64.minValue
  greatest := Int64.maxValue
  ofIntLE := Int64.ofIntLE
  toInt_ofIntLE _ _ _ := Int64.toInt_ofIntLE
  toInt_inj := Int64.toInt_inj
  toInt_least_le := Int64.minValue_le_toInt
  toInt_le_greatest := Int64.toInt_le
  toInt_complement w := by
    have hlow := w.le_toInt
    have hhigh := w.toInt_lt
    rw [Int64.toInt_not]
    exact Int.bmod_eq_of_le (by omega) (by omega)
  complement_least := by decide
  le_iff_toInt_le := Int64.le_iff_toInt_le

section Width

variable {ω : Type} [LE ω] [Complement ω] [Word ω] {n : Int} {v w : ω}

-- The word of this value, if there is one of its width.
def word? (n : Int) : Option ω :=
  if h : Word.toInt (Word.least : ω) ≤ n ∧ n ≤ Word.toInt (Word.greatest : ω) then
    some (Word.ofIntLE n h.1 h.2)
  else
    none

theorem toInt_of_word?_eq_some (h : word? n = some w) : Word.toInt w = n := by
  unfold word? at h
  split at h
  · cases h
    exact Word.toInt_ofIntLE _ _ _
  · cases h

theorem word?_eq_none_iff : (word? n : Option ω) = none ↔
    n < Word.toInt (Word.least : ω) ∨ Word.toInt (Word.greatest : ω) < n := by
  unfold word?
  rw [dite_eq_right_iff]
  simp only [reduceCtorEq, imp_false, not_and, Int.not_le]
  omega

theorem word?_toInt (w : ω) : word? (Word.toInt w) = some w := by
  have hbounds := And.intro (Word.toInt_least_le w) (Word.toInt_le_greatest w)
  rw [word?, dif_pos hbounds]
  exact congrArg some (Word.toInt_inj.mp (Word.toInt_ofIntLE _ _ _))

-- There is one more integer below zero than above it.
theorem toInt_greatest : Word.toInt (Word.greatest : ω) = -Word.toInt (Word.least : ω) - 1 := by
  rw [← Word.complement_least, Word.toInt_complement]

-- Complementing all bits turns the order around.
theorem complement_le_complement (h : v ≤ w) : ~~~w ≤ ~~~v := by
  rw [Word.le_iff_toInt_le] at h ⊢
  rw [Word.toInt_complement, Word.toInt_complement]
  omega

end Width

abbrev int32? (n : Int) : Option Int32 := word? n

abbrev int64? (n : Int) : Option Int64 := word? n

theorem toInt_of_int32?_eq_some {n : Int} {w : Int32} (h : int32? n = some w) : w.toInt = n :=
  toInt_of_word?_eq_some h

theorem int32?_eq_none_iff {n : Int} : int32? n = none ↔ n < -2 ^ 31 ∨ 2 ^ 31 ≤ n := by
  have hlow : Word.toInt (Word.least : Int32) = -2 ^ 31 := by decide
  have hhigh : Word.toInt (Word.greatest : Int32) = 2 ^ 31 - 1 := by decide
  rw [word?_eq_none_iff, hlow, hhigh]
  omega

theorem exists_int32? {n : Int} (hlow : -2 ^ 31 ≤ n) (hhigh : n < 2 ^ 31) :
    ∃ w, int32? n = some w := by
  cases hn : int32? n with
  | none =>
    rw [int32?_eq_none_iff] at hn
    omega
  | some w => exact ⟨w, rfl⟩

-- What lies between 32-bit integers is one.
theorem exists_int32?_between {i j n : Int} {low high : Int32} (hlow : int32? i = some low)
    (hhigh : int32? j = some high) (hi : i ≤ n) (hj : n ≤ j) :
    ∃ m, int32? n = some m ∧ low ≤ m ∧ m ≤ high := by
  have hlow' := toInt_of_int32?_eq_some hlow
  have hhigh' := toInt_of_int32?_eq_some hhigh
  have hbounds := low.le_toInt
  have hbounds' := high.toInt_lt
  obtain ⟨m, hn⟩ := exists_int32? (by omega : -2 ^ 31 ≤ n) (by omega)
  have hm := toInt_of_int32?_eq_some hn
  exact ⟨m, hn, Int32.le_iff_toInt_le.mpr (by omega), Int32.le_iff_toInt_le.mpr (by omega)⟩

end AbsEval
