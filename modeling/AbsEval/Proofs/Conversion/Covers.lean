import AbsEval.Conversion.Compound
import AbsEval.Operation.Comparison
import AbsEval.Operation.Concat
import AbsEval.Operation.Sign
import AbsEval.Proofs.Arithmetic.Range

namespace AbsEval

namespace Value

variable {v w c : Value} {kind : Kind} {store : Store}

theorem covers_of_describes (hc : c.isConcrete) (h : v.Describes c) : v.Covers c := by
  intro d hd
  obtain rfl : d = c := by
    cases c <;> first | exact hd | cases hc
  exact h

def isRange : Value → Bool
  | intRange _ | longRange _ | floatRange _ => true
  | _ => false

-- A kind covers all that stays within its families.
theorem any_covers (h : w.families = kind.families) : (any kind).Covers w :=
  fun _ hc => describes_any (isConcrete_of_describes hc) (h ▸ families_subset_of_describes hc)

theorem describes_longsBetween {low high n : Int64} (hlow : low ≤ n) (hhigh : n ≤ high) :
    (longsBetween low high).Describes (long n) := by
  have hle := Int64.le_trans hlow hhigh
  have hadmits : (longRange ⟨low, high, hle⟩).normalized.Admits (long n) :=
    admits_normalized ⟨n, rfl, Interval.contains_iff.mpr ⟨hlow, hhigh⟩⟩
  rw [longsBetween, numbersBetween_of_le hle]
  exact describes_of_admits_of_ne hadmits (by simp)

theorem covers_floatsBetween {low high x : Double} (hlt : low < high) (hlow : low ≤ x)
    (hhigh : x ≤ high) : (floatsBetween low high).Covers (float x) := by
  have hle := Double.le_of_lt hlt
  have hbetween : floatsBetween low high = floatRange ⟨low, high, hle⟩ := by
    rw [floatsBetween, numbersBetween_of_le hle]
    simp [normalized, Interval.isPoint, Double.not_le_of_lt hlt]
  rw [hbetween]
  exact covers_of_describes rfl ⟨x, rfl, Interval.contains_iff.mpr ⟨hlow, hhigh⟩⟩

theorem covers_toInt32 (b : Bool) : (intsBetween 0 1).Covers (int b.toInt32) := by
  refine covers_of_describes rfl (describes_intsBetween ?_ ?_) <;> cases b <;> decide

-- The families of results, whatever the operand.

theorem families_ofTruth? (truth : Option Bool) : (ofTruth? truth).families = [.boolean] := by
  cases truth <;> rfl

theorem families_ofText? (text : Option String) : (ofText? text).families = [.string] := by
  cases text <;> rfl

theorem families_elim {α : Type} {none : Value} {some : α → Value} {families : List Family}
    (hnone : none.families = families) (hsome : ∀ a, (some a).families = families)
    (a : Option α) : (a.elim none some).families = families := by
  cases a with
  | none => exact hnone
  | some a => exact hsome a

theorem families_castToInteger (store : Store) (v : Value) :
    (v.castToInteger store).result.families = [.integer] := by
  unfold castToInteger
  split
  · rfl
  · rfl
  · rfl
  · exact families_intsBetween 0 1
  · exact families_elim rfl (fun _ => families_intsBetween _ _) _

theorem families_castToFloat (store : Store) (v : Value) :
    (v.castToFloat store).result.families = [.float] := by
  unfold castToFloat
  split
  · rfl
  · rfl
  · rfl
  · simp only [Noted.quiet, families_floatsBetween]
  · exact families_elim rfl (fun _ => families_floatsBetween _ _) _

theorem families_toObject (store : Store) (v : Value) :
    (store.toObject v).1.families = [.object] := by
  cases v <;> rfl

theorem families_toArray (store : Store) (v : Value) :
    (store.toArray v).1.families = [.array] := by
  cases v <;> rfl

-- Each operator on what stands for a value covers its result on that value.

theorem covers_plus (h : v.Describes c) : v.plus.result.Covers c.plus.result := by
  cases v with
  | any kind =>
    cases kind with
    | boolean =>
      obtain ⟨b, rfl⟩ := exists_bool_of_describes h
      exact covers_toInt32 b
    | integer | longint | float =>
      -- Numbers are left as they are.
      have hsame : c.plus.result = c := by
        obtain ⟨hc, hf⟩ := h
        cases c <;> first | rfl | simp [families, Kind.families, isConcrete] at hc hf
      rw [hsame]
      exact covers_of_describes (isConcrete_of_describes h) h
    | resource =>
      obtain ⟨id, rfl⟩ : ∃ id, c = resource id := by
        obtain ⟨hc, hf⟩ := h
        cases c <;> simp_all [families, Kind.families, isConcrete]
      refine any_covers ?_
      show ((int32? id.toNat).elim (any .integer) int).families = _
      cases int32? id.toNat <;> rfl
    | object =>
      refine any_covers ?_
      obtain ⟨hc, hf⟩ := h
      cases c <;> first | rfl | simp [families, Kind.families, isConcrete] at hc hf
    | value | scalar | compound | string | array => exact any_value_covers _
  | intRange range | longRange range | floatRange range =>
    obtain ⟨n, rfl, hn⟩ := h
    exact covers_of_describes rfl ⟨n, rfl, hn⟩
  | marker m => exact h.elim
  | _ =>
    obtain rfl := h
    exact covers_refl _

theorem covers_complement (h : v.Describes c) (hv : ∀ range, v ≠ floatRange range) :
    v.complement.result.Covers c.complement.result := by
  cases v with
  | any kind =>
    cases kind with
    | integer | float =>
      have hinteger : c.complement.result.families = [.integer] := by
        obtain ⟨hc, hf⟩ := h
        cases c <;> first
          | rfl
          | exact families_elim rfl (fun _ => families_intsBetween _ _) _
          | simp [families, Kind.families, isConcrete] at hc hf
      exact any_covers hinteger
    | longint | string =>
      refine any_covers ?_
      obtain ⟨hc, hf⟩ := h
      cases c <;> first | rfl | simp [families, Kind.families, isConcrete] at hc hf
    | value | scalar | compound | boolean | array | object | resource => exact any_value_covers _
  | intRange range =>
    obtain ⟨n, rfl, hn⟩ := h
    obtain ⟨hlow, hhigh⟩ := Interval.contains_iff.mp hn
    exact covers_of_describes rfl (describes_intsBetween (complement_le_complement hhigh)
      (complement_le_complement hlow))
  | longRange range =>
    obtain ⟨n, rfl, hn⟩ := h
    obtain ⟨hlow, hhigh⟩ := Interval.contains_iff.mp hn
    exact covers_of_describes rfl (describes_longsBetween (complement_le_complement hhigh)
      (complement_le_complement hlow))
  | floatRange range => exact absurd rfl (hv range)
  | marker m => exact h.elim
  | _ =>
    obtain rfl := h
    exact covers_refl _

-- Both ends of a long range must be 32-bit integers.
theorem ends_of_intBounds? {range : Interval Int64} {bounds : Interval Int32}
    (h : (longRange range).intBounds? = some bounds) :
    int32? range.start.toInt = some bounds.start ∧ int32? range.stop.toInt = some bounds.stop := by
  obtain ⟨low, hlow, h⟩ := Option.bind_eq_some_iff.mp h
  obtain ⟨high, hhigh, h⟩ := Option.bind_eq_some_iff.mp h
  unfold Interval.between? at h
  split at h
  · cases h
    exact ⟨hlow, hhigh⟩
  · cases h

theorem covers_castToInteger (h : v.Describes c) (hv : ∀ range, v ≠ floatRange range) :
    (v.castToInteger store).result.Covers (c.castToInteger store).result := by
  cases v with
  | any kind =>
    cases kind with
    | boolean =>
      obtain ⟨b, rfl⟩ := exists_bool_of_describes h
      exact covers_toInt32 b
    | _ => exact any_covers (families_castToInteger store c)
  | intRange range =>
    obtain ⟨n, rfl, hn⟩ := h
    obtain ⟨hlow, hhigh⟩ := Interval.contains_iff.mp hn
    exact covers_of_describes rfl (describes_intsBetween hlow hhigh)
  | longRange range =>
    obtain ⟨n, rfl, hn⟩ := h
    obtain ⟨hlow, hhigh⟩ := Interval.contains_iff.mp hn
    have hcast : ((longRange range).castToInteger store).result =
        (longRange range).intBounds?.elim (any .integer) fun bounds =>
          intsBetween bounds.start bounds.stop := rfl
    rw [hcast]
    cases hbounds : (longRange range).intBounds? with
    | none => exact any_covers (families_castToInteger store _)
    | some bounds =>
      obtain ⟨hstart, hstop⟩ := ends_of_intBounds? hbounds
      obtain ⟨m, hm, hle⟩ := exists_int32?_between hstart hstop (Int64.le_iff_toInt_le.mp hlow)
        (Int64.le_iff_toInt_le.mp hhigh)
      have hmember : ((long n).castToInteger store).result = int m := by
        simp only [castToInteger, integer?, hm, Noted.quiet]
      rw [hmember]
      exact covers_of_describes rfl (describes_intsBetween hle.1 hle.2)
  | floatRange range => exact absurd rfl (hv range)
  | marker m => exact h.elim
  | _ =>
    obtain rfl := h
    exact covers_refl _

theorem covers_castToFloat (h : v.Describes c) (hv : v.isRange = false) :
    (v.castToFloat store).result.Covers (c.castToFloat store).result := by
  cases v with
  | any kind =>
    cases kind with
    | boolean =>
      obtain ⟨b, rfl⟩ := exists_bool_of_describes h
      simp only [castToFloat, float?, Noted.quiet]
      have hlt : Double.ofInt 0 < .ofInt 1 := by decide +kernel
      have hlow : Double.ofInt 0 ≤ .ofInt b.toInt32.toInt := by cases b <;> decide +kernel
      have hhigh : Double.ofInt b.toInt32.toInt ≤ .ofInt 1 := by cases b <;> decide +kernel
      -- The ends are named first: applying the lemma to them as they stand evaluates them.
      generalize Double.ofInt 0 = low at *
      generalize Double.ofInt 1 = high at *
      exact covers_floatsBetween hlt hlow hhigh
    | _ => exact any_covers (families_castToFloat store c)
  | intRange range | longRange range | floatRange range => cases hv
  | marker m => exact h.elim
  | _ =>
    obtain rfl := h
    exact covers_refl _

theorem covers_ofTruth? (f : Bool → Bool) (h : v.Describes c) :
    (ofTruth? ((v.truth? store).map f)).Covers (ofTruth? ((c.truth? store).map f)) := by
  cases ht : v.truth? store with
  | none => exact any_covers (families_ofTruth? _)
  | some b =>
    rw [truth?_of_admits (.inl h) ht]
    exact covers_refl _

end Value

end AbsEval
