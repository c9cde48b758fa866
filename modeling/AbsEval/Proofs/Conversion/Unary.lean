import AbsEval.Proofs.Conversion.Covers
import AbsEval.Proofs.Evaluation

namespace AbsEval

namespace Value

variable {v c : Value} {store : Store}

-- Between the two zeros there is more than the first of them, so ranges of floats are left out.
theorem describes_normalized (hv : ∀ range, v ≠ floatRange range) (h : v.Describes c) :
    v.normalized.Describes c := by
  rcases admits_normalized h with hn | ⟨x, y, hx, -, -⟩
  · exact hn
  · cases v with
    | floatRange range => exact absurd rfl (hv range)
    | intRange range | longRange range =>
      simp only [normalized] at hx
      split at hx <;> cases hx
    | _ => exact h

theorem normalized_ne_floatRange (hv : ∀ range, v ≠ floatRange range) (range : Interval Double) :
    v.normalized ≠ floatRange range := by
  intro hn
  cases v with
  | intRange r | longRange r =>
    simp only [normalized] at hn
    split at hn <;> cases hn
  | floatRange r => exact hv r rfl
  | _ => cases hn

theorem normalized_of_not_isRange (h : v.isRange = false) : v.normalized = v := by
  cases v <;> first | rfl | cases h

theorem isMarker_of_describes (h : v.Describes c) : v.isMarker = false := by
  cases v <;> first | rfl | exact h.elim

theorem exists_object_of_describes (h : (any .object).Describes c) :
    ∃ id className, c = object id className := by
  obtain ⟨hc, hf⟩ := h
  cases c <;> simp_all [isConcrete, families, Kind.families]

theorem covers_ofText? (h : v.Describes c) : (ofText? v.text?).Covers (ofText? c.text?) := by
  cases v with
  | intRange range | longRange range | floatRange range => exact any_covers (families_ofText? _)
  | any kind =>
    cases kind with
    | array =>
      obtain ⟨id, rfl⟩ := exists_array_of_describes h
      exact covers_refl _
    | _ => exact any_covers (families_ofText? _)
  | marker m => exact h.elim
  | _ =>
    obtain rfl := h
    exact covers_refl _

-- A new container is covered by the unknown one of its kind.

theorem covers_toObject (h : v.Describes c) :
    (store.toObject v).1.Covers (store.toObject c).1 := by
  cases v with
  | intRange range | longRange range | floatRange range | any kind =>
    exact any_covers (families_toObject store c)
  | marker m => exact h.elim
  | _ =>
    obtain rfl := h
    exact covers_refl _

theorem covers_toArray (h : v.Describes c) : (store.toArray v).1.Covers (store.toArray c).1 := by
  cases v with
  | intRange range | longRange range | floatRange range | any kind =>
    exact any_covers (families_toArray store c)
  | marker m => exact h.elim
  | _ =>
    obtain rfl := h
    exact covers_refl _

end Value

namespace Eval

variable (options : Options) (state : State)

theorem run_toObject {v : Value} (h : v.isMarker = false) :
    ((toObject v).run options state).1 = .ok (state.store.toObject v).1 := by
  unfold toObject
  rw [run_bind_ok options state (run_expectData options state h)]
  rfl

theorem run_toArray {v : Value} (h : v.isMarker = false) :
    ((toArray v).run options state).1 = .ok (state.store.toArray v).1 := by
  unfold toArray
  rw [run_bind_ok options state (run_expectData options state h)]
  rfl

theorem run_asText {v : Value} (h : v.isMarker = false) :
    ((ofExcept v.asText).run options state).1 = .ok (.ofText? v.text?) := by
  have htext : v.asText = .ok (.ofText? v.text?) := by
    simp only [Value.asText, Value.toText, Value.whenData, h]
    rfl
  rw [htext]
  rfl

variable {v c w : Value}

-- Casts cover, one table each.
theorem cast_covers {op : CastOp} (hv : ∀ range, v ≠ .floatRange range)
    (hfloat : op = .float ∨ op = .double → v.isRange = false) (h : v.Describes c)
    (hc : ((cast op c).run options state).1 = .ok w) :
    ∃ u, ((cast op v).run options state).1 = .ok u ∧ u.Covers w := by
  have hdata := Value.isMarker_of_describes h
  have hdata' := Value.isMarker_of_describes
    (Value.describes_self (Value.isConcrete_of_describes h))
  cases op with
  | int32 =>
    cases hc
    exact ⟨_, rfl, Value.covers_castToInteger h hv⟩
  | float =>
    cases hc
    exact ⟨_, rfl, Value.covers_castToFloat h (hfloat (.inl rfl))⟩
  | double =>
    cases hc
    exact ⟨_, rfl, Value.covers_castToFloat h (hfloat (.inr rfl))⟩
  | string | unicode =>
    cases (run_asText options state hdata').symm.trans hc
    exact ⟨_, run_asText options state hdata, Value.covers_ofText? h⟩
  | bool =>
    cases hc
    refine ⟨_, rfl, ?_⟩
    simpa only [Option.map_id_fun, id] using Value.covers_ofTruth? id h
  | object =>
    cases (run_toObject options state hdata').symm.trans hc
    exact ⟨_, run_toObject options state hdata, Value.covers_toObject h⟩
  | array =>
    cases (run_toArray options state hdata').symm.trans hc
    exact ⟨_, run_toArray options state hdata, Value.covers_toArray h⟩
  | unset =>
    cases hc
    exact ⟨_, rfl, Value.covers_refl _⟩
  | int8 | int16 | int64 | uint8 | uint16 | uint32 | uint64 | binary => cases hc

theorem clone_covers (h : v.Describes c) (hc : ((clone c).run options state).1 = .ok w) :
    ∃ u, ((clone v).run options state).1 = .ok u ∧ u.Covers w := by
  cases v with
  | any kind =>
    cases kind with
    | object =>
      obtain ⟨id, className, rfl⟩ := Value.exists_object_of_describes h
      cases hc
      exact ⟨_, rfl, Value.any_covers rfl⟩
    | _ => exact ⟨_, rfl, Value.any_value_covers w⟩
  | intRange range | longRange range | floatRange range => exact ⟨_, rfl, Value.any_value_covers w⟩
  | marker m => exact h.elim
  | _ =>
    obtain rfl := h
    exact ⟨_, hc, Value.covers_refl w⟩

-- What an operator makes of a value covers what it makes of each value stood for, from the same
-- state. Negation is apart, as it takes a range to floats if only one end has no negative.
theorem unary_covers {op : UnaryOp} (hop : op ≠ .minus) (hv : ∀ range, v ≠ .floatRange range)
    (hfloat : op = .cast .float ∨ op = .cast .double → v.isRange = false) (h : v.Describes c)
    (hc : ((unary op c).run options state).1 = .ok w) :
    ∃ u, ((unary op v).run options state).1 = .ok u ∧ u.Covers w := by
  have hconcrete := Value.isConcrete_of_describes h
  have hdescribes := Value.describes_normalized hv h
  have hrange := Value.normalized_ne_floatRange hv
  have hdata := Value.isMarker_of_describes (Value.describes_self hconcrete)
  unfold unary at hc ⊢
  rw [Value.normalized_of_isConcrete hconcrete,
    run_bind_ok options state (run_expectData options state hdata)] at hc
  rw [run_bind_ok options state
    (run_expectData options state (Value.isMarker_of_describes hdescribes))]
  cases op with
  | plus =>
    cases hc
    exact ⟨_, rfl, Value.covers_plus hdescribes⟩
  | minus => exact absurd rfl hop
  | complement =>
    cases hc
    exact ⟨_, rfl, Value.covers_complement hdescribes hrange⟩
  | not =>
    cases hc
    exact ⟨_, rfl, Value.covers_ofTruth? not hdescribes⟩
  | cast op =>
    refine cast_covers options state hrange (fun hop => ?_) hdescribes hc
    have hplain := hfloat (hop.imp (congrArg UnaryOp.cast) (congrArg UnaryOp.cast))
    rw [Value.normalized_of_not_isRange hplain]
    exact hplain
  | clone => exact clone_covers options state hdescribes hc
  | print =>
    cases hc
    exact ⟨_, rfl, Value.covers_refl _⟩
  | silence =>
    cases hc
    exact ⟨_, rfl, Value.covers_of_describes hconcrete hdescribes⟩

def upToSix : Interval Int32 := ⟨-2147483648, 6, by decide⟩

-- The bounds change places, and a new array is one of all arrays.
theorem unary_covers_upToSix :
    (Value.intRange upToSix).Describes (.int 6) ∧
      ((unary .complement (.int 6)).run {} .initial).1 = .ok (.int (-7)) ∧
      (∃ u, ((unary .complement (.intRange upToSix)).run {} .initial).1 = .ok u ∧
        u.Covers (.int (-7))) ∧
      (Value.any .value).Describes (.object 0 "A") ∧
      ((unary (.cast .array) (.object 0 "A")).run {} .initial).1 = .ok (.array 0) ∧
      ∃ u, ((unary (.cast .array) (.any .value)).run {} .initial).1 = .ok u ∧
        u.Covers (.array 0) := by
  have hrange : (Value.intRange upToSix).Describes (.int 6) := ⟨6, rfl, by decide⟩
  have hkind : (Value.any .value).Describes (.object 0 "A") := Value.describes_any rfl (by decide)
  have hint : ((unary .complement (.int 6)).run {} .initial).1 = .ok (.int (-7)) := by
    decide +kernel
  have harray : ((unary (.cast .array) (.object 0 "A")).run {} .initial).1 = .ok (.array 0) := by
    decide +kernel
  refine ⟨hrange, hint, ?_, hkind, harray, ?_⟩
  · exact unary_covers {} .initial (by decide) (fun _ => by simp) (by simp) hrange hint
  · exact unary_covers {} .initial (by decide) (fun _ => by simp) (by simp) hkind harray

end Eval

end AbsEval
