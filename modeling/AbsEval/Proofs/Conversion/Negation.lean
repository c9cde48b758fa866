import AbsEval.Proofs.Conversion.Unary

namespace AbsEval

namespace Value

variable {kind : Kind} {c : Value}

theorem any_covers_iff (hc : c.isConcrete) : (any kind).Covers c ↔ c.families ⊆ kind.families := by
  constructor
  · intro h
    exact (h c (describes_self hc)).2
  · intro h
    exact covers_of_describes hc (describes_any hc h)

-- The least integer of a width is the only one whose negative is a float.
theorem any_covers_neg_iff {ω : Type} [LE ω] [Complement ω] [Word ω] {integer : ω → Value}
    (hinteger : ∀ w, (any kind).Covers (integer w)) (hfloat : .float ∉ kind.families) (n : ω) :
    (any kind).Covers (ofWord integer (-Word.toInt n)) ↔ n ≠ Word.least := by
  have hlow := Word.toInt_least_le n
  have hgreatest := @toInt_greatest ω _ _ _
  rw [Ne, ← Word.toInt_inj, ofWord]
  cases hn : (word? (-Word.toInt n) : Option ω) with
  | none =>
    rw [word?_eq_none_iff] at hn
    have hhigh := Word.toInt_le_greatest n
    refine iff_of_false ?_ (by omega)
    rw [Option.elim_none, any_covers_iff rfl]
    simpa [families] using hfloat
  | some m =>
    have hm := toInt_of_word?_eq_some hn
    have hbound := Word.toInt_le_greatest m
    exact iff_of_true (hinteger m) (by omega)

theorem any_integer_covers_neg (n : Int32) :
    (any .integer).Covers (ofInteger (-n.toInt)) ↔ n ≠ Int32.minValue :=
  any_covers_neg_iff (fun _ => any_covers rfl) (by decide) n

theorem covers_neg_bool (b : Bool) :
    (intsBetween (-1) 0).Covers (ofInteger (-b.toInt32.toInt)) := by
  have hint : ofInteger (-b.toInt32.toInt) = int (-b.toInt32) := by
    cases b <;> rfl
  rw [hint]
  refine covers_of_describes rfl (describes_intsBetween ?_ ?_) <;> cases b <;> decide

-- The number of a resource is not negative, so its negative is in range as soon as it is itself.
theorem any_integer_covers_minus_resource (id : UInt32) :
    (any .integer).Covers (resource id).minus.result := by
  show (any .integer).Covers ((int32? id.toNat).elim (any .integer) fun n => ofInteger (-n.toInt))
  cases hid : int32? id.toNat with
  | none => exact covers_refl _
  | some n =>
    refine (any_integer_covers_neg n).mpr ?_
    rintro rfl
    have hn := toInt_of_int32?_eq_some hid
    have hleast : Int32.minValue.toInt = -2 ^ 31 := by decide
    omega

-- Negating an unknown integer, of either width, leaves out the float that only the least one gives.
theorem minus_covers_iff (h : (any kind).Describes c) :
    (any kind).minus.result.Covers c.minus.result ↔
      ¬(kind = .integer ∧ c = int Int32.minValue) ∧
        ¬(kind = .longint ∧ c = long Int64.minValue) := by
  cases kind with
  | boolean =>
    obtain ⟨b, rfl⟩ := exists_bool_of_describes h
    exact iff_of_true (covers_neg_bool b) (by simp)
  | integer =>
    obtain ⟨n, rfl⟩ := exists_int_of_describes h
    exact (any_integer_covers_neg n).trans (by simp)
  | longint =>
    obtain ⟨hc, hf⟩ := h
    cases c with
    | long n =>
      have hcovers : (any .longint).Covers (ofWord long (-n.toInt)) ↔ n ≠ Int64.minValue :=
        any_covers_neg_iff (fun _ => any_covers rfl) (by decide) n
      exact hcovers.trans (by simp)
    | intRange range | longRange range | floatRange range | any kind | marker m => cases hc
    | _ => simp [families, Kind.families] at hf
  | resource =>
    obtain ⟨hc, hf⟩ := h
    cases c with
    | resource id => exact iff_of_true (any_integer_covers_minus_resource id) (by simp)
    | intRange range | longRange range | floatRange range | any kind | marker m => cases hc
    | _ => simp [families, Kind.families] at hf
  | float =>
    obtain ⟨hc, hf⟩ := h
    cases c with
    | float x => exact iff_of_true (any_covers rfl) (by simp)
    | intRange range | longRange range | floatRange range | any kind | marker m => cases hc
    | _ => simp [families, Kind.families] at hf
  | object =>
    obtain ⟨id, className, rfl⟩ := exists_object_of_describes h
    exact iff_of_true (covers_refl _) (by simp)
  | value | scalar | compound | string | array => exact iff_of_true (any_value_covers _) (by simp)

end Value

namespace Eval

variable (options : Options) (state : State) {kind : Kind} {c : Value}

theorem run_minus (h : c.isMarker = false) :
    ((unary .minus c).run options state).1 = .ok c.normalized.minus.result := by
  unfold unary
  rw [run_bind_ok options state (run_expectData options state (by simpa using h))]
  rfl

-- What the negative of an unknown value of a kind is found to be covers the negatives of the values
-- of that kind, but for the least integer and the least long integer in their own kinds.
theorem minus_kind_covers_iff (h : (Value.any kind).Describes c) :
    ∃ v w, ((unary .minus (.any kind)).run options state).1 = .ok v ∧
      ((unary .minus c).run options state).1 = .ok w ∧
      (v.Covers w ↔ ¬(kind = .integer ∧ c = .int Int32.minValue) ∧
        ¬(kind = .longint ∧ c = .long Int64.minValue)) := by
  have hconcrete := Value.isConcrete_of_describes h
  have hdata := Value.isMarker_of_describes (Value.describes_self hconcrete)
  refine ⟨_, _, run_minus options state rfl, run_minus options state hdata, ?_⟩
  rw [Value.normalized_of_isConcrete hconcrete]
  exact Value.minus_covers_iff h

-- The least integer as one of all scalars, and the greatest one as one of all integers.
theorem minus_kind_covers_extremes :
    (Value.any .scalar).Describes (.int (-2147483648)) ∧
      ((unary .minus (.int (-2147483648))).run {} .initial).1 =
        .ok (.float (.ofInt 2147483648)) ∧
      (∃ v w, ((unary .minus (.any .scalar)).run {} .initial).1 = .ok v ∧
        ((unary .minus (.int (-2147483648))).run {} .initial).1 = .ok w ∧ v.Covers w) ∧
      (Value.any .integer).Describes (.int 2147483647) ∧
      ∃ v w, ((unary .minus (.any .integer)).run {} .initial).1 = .ok v ∧
        ((unary .minus (.int 2147483647)).run {} .initial).1 = .ok w ∧ v.Covers w := by
  have hleast : (Value.any .scalar).Describes (.int (-2147483648)) :=
    Value.describes_any rfl (by decide)
  have hgreatest : (Value.any .integer).Describes (.int 2147483647) :=
    Value.describes_any rfl (by decide)
  obtain ⟨v, w, hv, hw, hiff⟩ := minus_kind_covers_iff {} .initial hleast
  obtain ⟨v', w', hv', hw', hiff'⟩ := minus_kind_covers_iff {} .initial hgreatest
  exact ⟨hleast, run_minus {} .initial rfl, ⟨v, w, hv, hw, hiff.mpr (by decide)⟩, hgreatest, v', w',
    hv', hw', hiff'.mpr (by decide)⟩

-- The negatives of all integers are taken for integers, though one of them is a float.
theorem minus_misses_float :
    (Value.any .integer).Describes (.int Int32.minValue) ∧
      ((unary .minus (.any .integer)).run {} .initial).1 = .ok (.any .integer) ∧
      ((unary .minus (.int Int32.minValue)).run {} .initial).1 =
        .ok (.float (.ofInt 2147483648)) ∧
      ¬(Value.any .integer).Covers (.float (.ofInt 2147483648)) := by
  refine ⟨Value.describes_any rfl (by decide), run_minus {} .initial rfl,
    run_minus {} .initial rfl, ?_⟩
  rw [Value.any_covers_iff rfl]
  simp [Value.families, Kind.families]

end Eval

end AbsEval
