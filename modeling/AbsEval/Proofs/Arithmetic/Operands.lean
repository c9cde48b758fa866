import AbsEval.Proofs.Arithmetic.Range

namespace AbsEval

-- The operand that is one of the integers between two bounds.
def Operand.ofBounds (low high : Int32) : Operand :=
  if low = high then int low else ints low high

theorem Operand.ofBounds_self (n : Int32) : ofBounds n n = int n :=
  if_pos rfl

namespace Value

-- The operands that are integers, null and truth values among them.
def countsAsInt : Value → Bool
  | null | bool _ | int _ | intRange _ | any .boolean | any .integer => true
  | _ => false

theorem countsAsInt_cases {v : Value} (h : v.countsAsInt) :
    v = null ∨ (∃ b, v = bool b) ∨ (∃ n, v = int n) ∨ (∃ range, v = intRange range) ∨
      v = any .boolean ∨ v = any .integer := by
  cases v with
  | null => exact .inl rfl
  | bool b => exact .inr (.inl ⟨b, rfl⟩)
  | int n => exact .inr (.inr (.inl ⟨n, rfl⟩))
  | intRange range => exact .inr (.inr (.inr (.inl ⟨range, rfl⟩)))
  | any kind =>
    cases kind with
    | boolean => exact .inr (.inr (.inr (.inr (.inl rfl))))
    | integer => exact .inr (.inr (.inr (.inr (.inr rfl))))
    | _ => cases h
  | _ => cases h

-- A value stands for at most one.
def IsSingle (v : Value) : Prop :=
  ∀ a b, v.Describes a → v.Describes b → a = b

-- A value that counts as the integers between two bounds: each of its members is one of them, and
-- no other member is the same one.
structure CountsBetween (v : Value) (low high : Int32) : Prop where
  ordered : low ≤ high
  operand : Operand.ofValue v.normalized = .ofBounds low high
  bounded : ∀ {c}, v.Describes c → ∃ n, Operand.ofValue c = .int n ∧ low ≤ n ∧ n ≤ high
  reached : ∀ {n}, low ≤ n → n ≤ high → ∃ c, v.Describes c ∧ Operand.ofValue c = .int n
  distinct : ∀ {a b}, v.Describes a → v.Describes b → Operand.ofValue a = Operand.ofValue b → a = b

theorem countsBetween_of_single {v : Value} {n : Int32} (hv : ∀ c, v.Describes c ↔ c = v.normalized)
    (hn : Operand.ofValue v.normalized = .int n) : v.CountsBetween n n where
  ordered := Int32.le_refl n
  operand := by rw [hn, Operand.ofBounds_self]
  bounded hc := ⟨n, by rw [(hv _).mp hc, hn], Int32.le_refl n, Int32.le_refl n⟩
  reached hlow hhigh := ⟨_, (hv _).mpr rfl, by rw [hn, Int32.le_antisymm hlow hhigh]⟩
  distinct ha hb _ := ((hv _).mp ha).trans ((hv _).mp hb).symm

-- A range of one point is taken for that point.
theorem normalized_intRange (range : Interval Int32) :
    (intRange range).normalized = int range.start ∧ range.start = range.stop ∨
      (intRange range).normalized = intRange range ∧ range.start ≠ range.stop := by
  rw [normalized]
  split
  · next hpoint =>
    exact .inl ⟨rfl, Int32.le_antisymm range.ordered (of_decide_eq_true hpoint)⟩
  · next hpoint => exact .inr ⟨rfl, fun h => hpoint (decide_eq_true (h ▸ Int32.le_refl _))⟩

theorem countsBetween_intRange (range : Interval Int32) :
    (intRange range).CountsBetween range.start range.stop where
  ordered := range.ordered
  operand := by
    rcases normalized_intRange range with ⟨hrange, hpoint⟩ | ⟨hrange, hpoint⟩
    · rw [hrange, Operand.ofBounds, if_pos hpoint]
      rfl
    · rw [hrange, Operand.ofBounds, if_neg hpoint]
      rfl
  bounded := by
    rintro c ⟨n, rfl, hn⟩
    exact ⟨n, rfl, Interval.contains_iff.mp hn⟩
  reached {n} hlow hhigh := ⟨int n, ⟨n, rfl, Interval.contains_iff.mpr ⟨hlow, hhigh⟩⟩, rfl⟩
  distinct := by
    rintro a b ⟨m, rfl, -⟩ ⟨n, rfl, -⟩ h
    exact congrArg int (Operand.int.inj h)

theorem countsBetween_boolean : (any .boolean).CountsBetween 0 1 where
  ordered := by decide
  operand := rfl
  bounded h := by
    obtain ⟨b, rfl⟩ := exists_bool_of_describes h
    cases b
    · exact ⟨0, rfl, by decide, by decide⟩
    · exact ⟨1, rfl, by decide, by decide⟩
  reached {n} hlow hhigh := by
    rw [Int32.le_iff_toInt_le] at hlow hhigh
    have hn : n.toInt = 0 ∨ n.toInt = 1 := by
      simp only [Int32.toInt_zero, Int32.toInt_one] at hlow hhigh
      omega
    rcases hn with h | h
    · exact ⟨bool false, describes_any rfl (by decide), by
        rw [show n = 0 from Int32.toInt_inj.mp h]; rfl⟩
    · exact ⟨bool true, describes_any rfl (by decide), by
        rw [show n = 1 from Int32.toInt_inj.mp h]; rfl⟩
  distinct ha hb h := by
    obtain ⟨a, rfl⟩ := exists_bool_of_describes ha
    obtain ⟨b, rfl⟩ := exists_bool_of_describes hb
    cases a <;> cases b <;> first | rfl | exact absurd (Operand.int.inj h) (by decide)

theorem countsBetween_integer :
    (any .integer).CountsBetween Int32.minValue Int32.maxValue where
  ordered := by decide
  operand := rfl
  bounded h := by
    obtain ⟨n, rfl⟩ := exists_int_of_describes h
    exact ⟨n, rfl, Int32.minValue_le n, Int32.le_maxValue n⟩
  reached {n} _ _ := ⟨int n, describes_any rfl (by simp [families, Kind.families]), rfl⟩
  distinct ha hb h := by
    obtain ⟨m, rfl⟩ := exists_int_of_describes ha
    obtain ⟨n, rfl⟩ := exists_int_of_describes hb
    exact congrArg int (Operand.int.inj h)

theorem exists_countsBetween {v : Value} (h : v.countsAsInt) :
    ∃ low high, v.CountsBetween low high := by
  rcases countsAsInt_cases h with rfl | ⟨b, rfl⟩ | ⟨n, rfl⟩ | ⟨range, rfl⟩ | rfl | rfl
  · exact ⟨0, 0, countsBetween_of_single (fun _ => Iff.rfl) rfl⟩
  · exact ⟨_, _, countsBetween_of_single (fun _ => Iff.rfl) rfl⟩
  · exact ⟨_, _, countsBetween_of_single (fun _ => Iff.rfl) rfl⟩
  · exact ⟨_, _, countsBetween_intRange range⟩
  · exact ⟨_, _, countsBetween_boolean⟩
  · exact ⟨_, _, countsBetween_integer⟩

end Value

end AbsEval
