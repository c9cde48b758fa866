import AbsEval.Conversion.Scalar
import AbsEval.Proofs.Double.Order
import AbsEval.Value.Meaning

namespace AbsEval

namespace Interval

theorem contains_iff {α : Type} [LE α] [DecidableLE α] {range : Interval α} {x : α} :
    range.contains x ↔ range.start ≤ x ∧ x ≤ range.stop := by
  simp [contains]

section Truth

variable {α : Type} [LE α] [DecidableLE α] [Bound α]

-- A definite truth of a range is the truth of each of its members.
theorem truth?_eq_some (htrans : ∀ {x y z : α}, x ≤ y → y ≤ z → x ≤ z) {range : Interval α}
    {b : Bool} {x : α} (h : range.truth? = some b) (hx : range.contains x) :
    (x ≤ Bound.zero ∧ Bound.zero ≤ x) ↔ b = false := by
  rw [contains_iff] at hx
  unfold truth? at h
  split at h
  · next hz =>
    cases h
    simp only [isZero, containsZero, contains, isPoint, Bool.and_eq_true,
      decide_eq_true_eq] at hz
    obtain ⟨⟨hlow, hhigh⟩, hpoint⟩ := hz
    exact iff_of_true
      ⟨htrans hx.2 (htrans hpoint hlow), htrans hhigh (htrans hpoint hx.1)⟩ rfl
  · split at h
    · cases h
    · next hz =>
      cases h
      simp only [containsZero, contains, Bool.and_eq_true, decide_eq_true_eq] at hz
      refine iff_of_false (fun hzero => hz ?_) (by simp)
      exact ⟨htrans hx.1 hzero.1, htrans hzero.2 hx.2⟩

end Truth

end Interval

namespace Value

-- A kind of one family stands for values of one form.

theorem exists_bool_of_describes {c : Value} (h : (any .boolean).Describes c) :
    ∃ b, c = bool b := by
  obtain ⟨hc, hf⟩ := h
  cases c <;> simp_all [isConcrete, families, Kind.families]

theorem exists_int_of_describes {c : Value} (h : (any .integer).Describes c) :
    ∃ n, c = int n := by
  obtain ⟨hc, hf⟩ := h
  cases c <;> simp_all [isConcrete, families, Kind.families]

theorem exists_array_of_describes {c : Value} (h : (any .array).Describes c) :
    ∃ id, c = array id := by
  obtain ⟨hc, hf⟩ := h
  cases c <;> simp_all [isConcrete, families, Kind.families]

theorem exists_of_family (family : Family) :
    ∃ c : Value, c.isConcrete ∧ c.families = [family] := by
  cases family with
  | null => exact ⟨null, rfl, rfl⟩
  | boolean => exact ⟨bool false, rfl, rfl⟩
  | integer => exact ⟨int 0, rfl, rfl⟩
  | longint => exact ⟨long 0, rfl, rfl⟩
  | float => exact ⟨float .nan, rfl, rfl⟩
  | string => exact ⟨str "", rfl, rfl⟩
  | array => exact ⟨array 0, rfl, rfl⟩
  | object => exact ⟨object 0 "", rfl, rfl⟩
  | resource => exact ⟨resource 0, rfl, rfl⟩

theorem describes_any_of_family {family : Family} {kind : Kind} {c : Value} (hc : c.isConcrete)
    (hf : c.families = [family]) (h : family ∈ kind.families) : (any kind).Describes c :=
  describes_any hc (by simpa [hf] using h)

-- Each data value stands for something.
theorem exists_describes {v : Value} (h : v.isMarker = false) : ∃ c, v.Describes c := by
  cases v with
  | intRange range =>
    exact ⟨_, range.start, rfl, Interval.contains_iff.mpr ⟨Int32.le_refl _, range.ordered⟩⟩
  | longRange range =>
    exact ⟨_, range.start, rfl, Interval.contains_iff.mpr ⟨Int64.le_refl _, range.ordered⟩⟩
  | floatRange range =>
    have hstart := Double.le_self_of_le range.ordered
    exact ⟨_, range.start, rfl, Interval.contains_iff.mpr ⟨hstart, range.ordered⟩⟩
  | any kind =>
    have hne : kind.families ≠ [] := by cases kind <;> decide
    obtain ⟨family, hfamily⟩ := List.exists_mem_of_ne_nil _ hne
    obtain ⟨c, hc, hf⟩ := exists_of_family family
    exact ⟨c, describes_any_of_family hc hf hfamily⟩
  | marker m => cases h
  | _ => exact ⟨_, rfl⟩

-- As `Describes`, but numbers are told apart only as far as comparison does. The two zeros differ
-- as values, and a range from one to the other is taken for its first end.
def Admits (v c : Value) : Prop :=
  v.Describes c ∨ ∃ x y, v = float x ∧ c = float y ∧ x.numEq y

theorem isConcrete_of_admits {v c : Value} (h : v.Admits c) : c.isConcrete := by
  rcases h with h | ⟨x, y, -, rfl, -⟩
  · exact isConcrete_of_describes h
  · rfl

theorem families_subset_of_admits {v c : Value} (h : v.Admits c) : c.families ⊆ v.families := by
  rcases h with h | ⟨x, y, rfl, rfl, -⟩
  · exact families_subset_of_describes h
  · exact List.Subset.refl _

-- A concrete value stands for itself, a float also for the other zero.

theorem eq_of_admits {v c : Value} (hv : v.isConcrete) (hf : .float ∉ v.families)
    (h : v.Admits c) : c = v := by
  rcases h with h | ⟨x, y, rfl, -, -⟩
  · cases v <;> first | exact h | simp [isConcrete] at hv
  · simp [families] at hf

theorem float_of_admits {x : Double} {c : Value} (h : (float x).Admits c) :
    ∃ y, c = float y ∧ y.position? = x.position? := by
  rcases h with h | ⟨x', y, hx, rfl, hxy⟩
  · exact ⟨x, h, rfl⟩
  · cases hx
    exact ⟨y, rfl, (Double.position?_of_numEq hxy).symm⟩

theorem intRange_of_admits {range : Interval Int32} {c : Value} (h : (intRange range).Admits c) :
    ∃ n, c = int n ∧ range.contains n := by
  rcases h with h | ⟨x, y, hx, -, -⟩
  · exact h
  · cases hx

theorem floatRange_of_admits {range : Interval Double} {c : Value}
    (h : (floatRange range).Admits c) : ∃ x, c = float x ∧ range.contains x := by
  rcases h with h | ⟨x, y, hx, -, -⟩
  · exact h
  · cases hx

-- Replacing a range of one point by that point keeps what it stands for.
theorem admits_normalized {v c : Value} (h : v.Describes c) : v.normalized.Admits c := by
  cases v <;> try exact .inl h
  case intRange range =>
    obtain ⟨n, rfl, hn⟩ := h
    simp only [normalized]
    split
    · next hp =>
      rw [Interval.isPoint, decide_eq_true_eq] at hp
      rw [Interval.contains_iff] at hn
      rw [Int32.le_antisymm hn.1 (Int32.le_trans hn.2 hp)]
      exact .inl rfl
    · exact .inl ⟨n, rfl, hn⟩
  case longRange range =>
    obtain ⟨n, rfl, hn⟩ := h
    simp only [normalized]
    split
    · next hp =>
      rw [Interval.isPoint, decide_eq_true_eq] at hp
      rw [Interval.contains_iff] at hn
      rw [Int64.le_antisymm hn.1 (Int64.le_trans hn.2 hp)]
      exact .inl rfl
    · exact .inl ⟨n, rfl, hn⟩
  case floatRange range =>
    obtain ⟨x, rfl, hx⟩ := h
    simp only [normalized]
    split
    · next hp =>
      rw [Interval.isPoint, decide_eq_true_eq] at hp
      rw [Interval.contains_iff] at hx
      exact .inr ⟨_, x, rfl, rfl, Double.numEq_of_le_of_le hx.1 (Double.le_trans hx.2 hp)⟩
    · exact .inl ⟨x, rfl, hx⟩

-- A definite truth holds of every value that is stood for.
theorem truth?_of_admits {store : Store} {v c : Value} {b : Bool} (h : v.Admits c)
    (ht : v.truth? store = some b) : c.truth? store = some b := by
  rcases h with h | ⟨x, y, rfl, rfl, hxy⟩
  · cases v <;> try (obtain rfl := h; exact ht)
    case intRange range =>
      obtain ⟨n, rfl, hn⟩ := h
      have hiff := Interval.truth?_eq_some Int32.le_trans ht hn
      have hzero : n = 0 ↔ b = false := by
        rw [← hiff]
        exact ⟨fun h => h ▸ ⟨Int32.le_refl _, Int32.le_refl _⟩, fun h => Int32.le_antisymm h.1 h.2⟩
      cases b <;> simp_all [truth?]
    case longRange range =>
      obtain ⟨n, rfl, hn⟩ := h
      have hiff := Interval.truth?_eq_some Int64.le_trans ht hn
      have hzero : n = 0 ↔ b = false := by
        rw [← hiff]
        exact ⟨fun h => h ▸ ⟨Int64.le_refl _, Int64.le_refl _⟩, fun h => Int64.le_antisymm h.1 h.2⟩
      cases b <;> simp_all [truth?]
    case floatRange range =>
      obtain ⟨x, rfl, hx⟩ := h
      have hiff := Interval.truth?_eq_some Double.le_trans ht hx
      have hzero : x.isZero ↔ b = false := Double.isZero_iff.trans hiff
      cases b <;> simp_all [truth?]
    case any kind =>
      -- Only objects and resources are true whatever they are.
      cases kind <;> cases ht <;> cases c <;>
        simp_all [Describes, isConcrete, families, Kind.families, truth?]
    case marker m => exact h.elim
  · simpa only [truth?, Double.isZero_congr (Double.position?_of_numEq hxy)] using ht

end Value

end AbsEval
