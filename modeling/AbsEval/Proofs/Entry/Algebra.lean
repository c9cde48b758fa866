import AbsEval.Proofs.Store.Lookup
import Mathlib.Data.List.Induction

namespace AbsEval

section FirstOccurrences

variable {α : Type} [BEq α] [LawfulBEq α]

-- A value at the end is kept if it did not occur before.
theorem eraseDups_append_singleton (xs : List α) (z : α) :
    (xs ++ [z]).eraseDups = xs.eraseDups ++ [z].filter (!xs.contains ·) := by
  rw [List.eraseDups_append]
  exact congrArg (xs.eraseDups ++ ·) (eraseDups_of_nodup ((List.nodup_singleton z).filter _))

theorem eraseDups_filter (p : α → Bool) (xs : List α) :
    (xs.filter p).eraseDups = xs.eraseDups.filter p := by
  induction xs using List.reverseRecOn with
  | nil => rfl
  | append_singleton xs z ih =>
    rw [List.filter_append, eraseDups_append_singleton, List.filter_append, ← ih]
    by_cases hz : p z
    · have hkept : [z].filter p = [z] := by simp [hz]
      rw [hkept, eraseDups_append_singleton]
      by_cases hmem : z ∈ xs <;> simp [hmem, hz]
    · by_cases hmem : z ∈ xs <;> simp [hmem, hz]

-- Repetitions may be left out of either part beforehand.

theorem eraseDups_append_left (xs ys : List α) :
    (xs.eraseDups ++ ys).eraseDups = (xs ++ ys).eraseDups := by
  have hnew : ys.removeAll xs.eraseDups = ys.removeAll xs := by
    simp [List.removeAll, List.mem_eraseDups]
  rw [List.eraseDups_append, List.eraseDups_append, eraseDups_of_nodup (nodup_eraseDups xs), hnew]

theorem eraseDups_append_right (xs ys : List α) :
    (xs ++ ys.eraseDups).eraseDups = (xs ++ ys).eraseDups := by
  have hnew : ys.eraseDups.removeAll xs = (ys.removeAll xs).eraseDups :=
    (eraseDups_filter _ ys).symm
  rw [List.eraseDups_append, List.eraseDups_append, hnew, eraseDups_of_nodup (nodup_eraseDups _)]

-- Of two values that are kept, the one that came first stands first.
theorem pairwise_idxOf_eraseDups (xs : List α) :
    xs.eraseDups.Pairwise fun x y => xs.idxOf x < xs.idxOf y := by
  induction xs using List.reverseRecOn with
  | nil => exact List.Pairwise.nil
  | append_singleton xs z ih =>
    have hearlier : xs.eraseDups.Pairwise fun x y =>
        (xs ++ [z]).idxOf x < (xs ++ [z]).idxOf y := by
      refine ih.imp_of_mem fun hx hy hlt => ?_
      rw [List.mem_eraseDups] at hx hy
      rwa [List.idxOf_append, List.idxOf_append, if_pos hx, if_pos hy]
    rw [eraseDups_append_singleton, List.pairwise_append]
    refine ⟨hearlier, (List.pairwise_singleton _ z).filter _, fun x hx y hy => ?_⟩
    rw [List.mem_eraseDups] at hx
    obtain ⟨hy, hnew⟩ := List.mem_filter.mp hy
    obtain rfl := List.mem_singleton.mp hy
    have hy : y ∉ xs := by simpa using hnew
    have hlt := List.idxOf_lt_length_of_mem hx
    rw [List.idxOf_append, List.idxOf_append, if_pos hx, if_neg hy]
    omega

end FirstOccurrences

namespace Value

theorem same_iff {v w : Value} : v.same w ↔ v = w :=
  ⟨eq_of_same, fun h => h ▸ same_self v⟩

theorem same_equivalence : Equivalence fun v w : Value => v.same w where
  refl := same_self
  symm h := same_iff.mpr (same_iff.mp h).symm
  trans h k := same_iff.mpr ((same_iff.mp h).trans (same_iff.mp k))

-- Floats are the same if their encodings are, not if they are equal as numbers.

theorem float_ofBits_same_iff {bits bits' : UInt64} :
    (float (.ofBits bits)).same (float (.ofBits bits')) ↔ bits = bits' := by
  show (Double.ofBits bits).toBits == (Double.ofBits bits').toBits ↔ _
  rw [beq_iff_eq, Double.toBits_ofBits, Double.toBits_ofBits]

theorem floatRange_same_iff {i j : Interval Double} :
    (floatRange i).same (floatRange j) ↔
      i.start.toBits = j.start.toBits ∧ i.stop.toBits = j.stop.toBits := by
  show (i.start.toBits == j.start.toBits && i.stop.toBits == j.stop.toBits) ↔ _
  rw [Bool.and_eq_true, beq_iff_eq, beq_iff_eq]

end Value

namespace Entry

variable {e f g : Entry} {v : Value} {xs ys : List Value}

theorem eq_of_values_eq (h : e.values = f.values) : e = f := by
  cases e
  cases f
  cases h
  rfl

theorem values_insert (e : Entry) (v : Value) :
    (e.insert v).values = if v ∈ e.values then e.values else e.values ++ [v] := by
  show (e.values ++ [v]).eraseDups = _
  rw [eraseDups_append_singleton, eraseDups_of_nodup e.distinct]
  split
  · next h => simp [h]
  · next h => simp [h]

theorem union_self (e : Entry) : e.union e = e := by
  refine eq_of_values_eq ?_
  show (e.values ++ e.values).eraseDups = e.values
  have hnew : e.values.removeAll e.values = [] := by simp [List.removeAll]
  rw [List.eraseDups_append, eraseDups_of_nodup e.distinct, hnew, List.eraseDups_nil,
    List.append_nil]

theorem union_assoc (e f g : Entry) : (e.union f).union g = e.union (f.union g) := by
  refine eq_of_values_eq ?_
  show ((e.values ++ f.values).eraseDups ++ g.values).eraseDups =
    (e.values ++ (f.values ++ g.values).eraseDups).eraseDups
  rw [eraseDups_append_left, eraseDups_append_right, List.append_assoc]

theorem perm_union_comm (e f : Entry) : (e.union f).values.Perm (f.union e).values := by
  rw [List.perm_ext_iff_of_nodup (e.union f).distinct (f.union e).distinct]
  intro v
  rw [mem_union, mem_union, or_comm]

-- Inserting values one by one keeps those that are new.
theorem values_foldl_insert (e : Entry) (vs : List Value) :
    (vs.foldl insert e).values = (e.values ++ vs).eraseDups := by
  induction vs generalizing e with
  | nil => rw [List.foldl_nil, List.append_nil, eraseDups_of_nodup e.distinct]
  | cons v vs ih =>
    rw [List.foldl_cons, ih]
    show ((e.values ++ [v]).eraseDups ++ vs).eraseDups = _
    rw [eraseDups_append_left, List.append_assoc, List.singleton_append]

theorem union_eq_foldl_insert (e f : Entry) : e.union f = f.values.foldl insert e :=
  eq_of_values_eq (values_foldl_insert e f.values).symm

theorem ofList?_cons (v : Value) (vs : List Value) :
    ofList? (v :: vs) = some (vs.foldl insert (single v)) := by
  rw [ofList?, dif_pos (List.cons_ne_nil v vs)]
  refine congrArg some (eq_of_values_eq ?_)
  rw [values_foldl_insert, values_single, List.singleton_append]
  rfl

-- What is built from two lists is the union of what is built from each.
theorem ofList?_append (xs ys : List Value) :
    ofList? (xs ++ ys) = (ofList? xs).merge union (ofList? ys) := by
  cases xs with
  | nil =>
    rw [List.nil_append]
    show ofList? ys = Option.merge union none (ofList? ys)
    cases ofList? ys <;> rfl
  | cons x xs =>
    cases ys with
    | nil => simp [ofList?]
    | cons y ys =>
      refine congrArg some (eq_of_values_eq ?_)
      show _ = ((x :: xs).eraseDups ++ (y :: ys).eraseDups).eraseDups
      rw [eraseDups_append_left, eraseDups_append_right]
      rfl

theorem values_of_ofList? {result : Entry} (h : ofList? xs = some result) :
    result.values = xs.eraseDups := by
  unfold ofList? at h
  split at h
  · cases h
    rfl
  · cases h

theorem countP_same_of_ofList? {result : Entry} (h : ofList? xs = some result) (v : Value) :
    result.values.countP (·.same v) = if xs.any (·.same v) then 1 else 0 := by
  have hany : xs.any (·.same v) = xs.contains v := List.any_beq'
  show result.values.count v = _
  rw [result.distinct.count, hany]
  simp only [values_of_ofList? h, List.mem_eraseDups, List.contains_iff_mem]

theorem insertNew_iff (e : Entry) (v : Value) :
    ((e.insertNew v).1 = true ↔ (e.insertNew v).2.count = e.count + 1) ∧
      ((e.insertNew v).1 = false ↔ (e.insertNew v).2 = e) := by
  have hvalues := values_insert e v
  unfold insertNew count
  dsimp only
  by_cases hv : v ∈ e.values
  · rw [if_pos hv] at hvalues
    obtain heq : e.insert v = e := eq_of_values_eq hvalues
    simp [hv, heq]
  · rw [if_neg hv] at hvalues
    have hne : e.insert v ≠ e := fun heq => by
      rw [heq] at hvalues
      simp at hvalues
    simp [hv, hvalues, hne]

-- Entries are sets that remember in which order their values came. Sameness of values is an
-- equivalence that tells floats apart by their encoding: NaN is kept once for each encoding, and
-- the two zeros are kept apart.
theorem ordered_set_laws (xs ys : List Value) (h : ¬(xs = [] ∧ ys = [])) :
    (∃ result, ofList? (xs ++ ys) = some result ∧
      (ofList? xs).merge union (ofList? ys) = some result ∧
      (∀ v, result.values.countP (·.same v) = if (xs ++ ys).any (·.same v) then 1 else 0) ∧
      result.values.Pairwise fun v w =>
        (xs ++ ys).findIdx (·.same v) < (xs ++ ys).findIdx (·.same w)) ∧
    (Equivalence fun v w : Value => v.same w) ∧
    (∀ bits bits', (Value.float (.ofBits bits)).same (.float (.ofBits bits')) ↔ bits = bits') ∧
    (∀ i j, (Value.floatRange i).same (.floatRange j) ↔
      i.start.toBits = j.start.toBits ∧ i.stop.toBits = j.stop.toBits) ∧
    (∀ e f g : Entry, (e.union f).union g = e.union (f.union g)) ∧
    (∀ e : Entry, e.union e = e) ∧
    (∀ e f : Entry, (e.union f).values.Perm (f.union e).values) ∧
    (∀ e f : Entry, e.union f = f.values.foldl insert e) ∧
    (∀ v vs, ofList? (v :: vs) = some (vs.foldl insert (single v))) ∧
    ∀ (e : Entry) (v : Value),
      ((e.insertNew v).1 = true ↔ (e.insertNew v).2.count = e.count + 1) ∧
      ((e.insertNew v).1 = false ↔ (e.insertNew v).2 = e) := by
  refine ⟨?_, Value.same_equivalence, fun _ _ => Value.float_ofBits_same_iff,
    fun _ _ => Value.floatRange_same_iff, union_assoc, union_self, perm_union_comm,
    union_eq_foldl_insert, ofList?_cons, insertNew_iff⟩
  have hne : xs ++ ys ≠ [] := mt List.append_eq_nil_iff.mp h
  have hresult : ofList? (xs ++ ys) = some (ofNonempty (xs ++ ys) hne) := dif_pos hne
  refine ⟨_, hresult, (ofList?_append xs ys).symm.trans hresult, countP_same_of_ofList? hresult, ?_⟩
  rw [values_of_ofList? hresult]
  exact pairwise_idxOf_eraseDups (xs ++ ys)

-- Two encodings of NaN, one of them twice, and the zeros, which are equal numbers with different
-- signs.
def floatsInFront : List Value :=
  [.float (.ofBits 0x7ff8000000000000), .float (.ofBits 0xfff8000000000000),
    .float (.ofBits 0x8000000000000000)]

def floatsBehind : List Value :=
  [.float (.ofBits 0), .float (.ofBits 0x7ff8000000000000)]

theorem ordered_set_laws_floats :
    ¬(floatsInFront = [] ∧ floatsBehind = []) ∧
    ∃ result, ofList? (floatsInFront ++ floatsBehind) = some result ∧
      (ofList? floatsInFront).merge union (ofList? floatsBehind) = some result ∧
      result.values = floatsInFront ++ [.float (.ofBits 0)] ∧
      result.values.countP (·.same (.float (.ofBits 0x7ff8000000000000))) = 1 := by
  have h : ¬(floatsInFront = [] ∧ floatsBehind = []) := by simp [floatsInFront]
  obtain ⟨⟨result, hresult, hmerge, hcount, -⟩, -⟩ := ordered_set_laws _ _ h
  refine ⟨h, result, hresult, hmerge, ?_, hcount _⟩
  rw [values_of_ofList? hresult]
  decide +kernel

end Entry

end AbsEval
