import AbsEval.Proofs.Index.Canonical
import Mathlib.Data.List.Nodup

namespace AbsEval

-- What is found about an index without evaluation.
def IndexClass.ofEntry (options : Options) (key : Entry) : IndexClass :=
  .ofCandidates (key.values.map (Candidate.ofValue options))

section EraseDups

variable {α β : Type}

-- Of the elements with one image the first is kept.
theorem map_eraseDupsBy [DecidableEq β] (f : α → β) (xs : List α) :
    (xs.eraseDupsBy fun a b => f a == f b).map f = (xs.map f).eraseDups := by
  cases xs with
  | nil => rfl
  | cons a as =>
    have hfilter : (as.map f).filter (fun b => !b == f a) =
        (as.filter fun b => (f b == f a) = false).map f := by
      rw [List.filter_map]
      congr 2
      funext b
      simp only [Function.comp_apply]
      cases f b == f a <;> rfl
    rw [List.eraseDupsBy_cons, List.map_cons, List.map_cons, List.eraseDups_cons, hfilter,
      map_eraseDupsBy f (as.filter fun b => (f b == f a) = false)]
termination_by xs.length
decreasing_by exact Nat.lt_succ_of_le (List.length_filter_le _ _)

-- No other is.
theorem mem_eraseDupsBy_iff [DecidableEq β] (f : α → β) {a : α} (xs : List α) :
    (a ∈ xs.eraseDupsBy fun a b => f a == f b) ↔ xs.find? (fun b => f b == f a) = some a := by
  cases xs with
  | nil => simp
  | cons x xs =>
    have hrest := mem_eraseDupsBy_iff f (a := a) (xs.filter fun b => (f b == f x) = false)
    rw [List.eraseDupsBy_cons, List.mem_cons, hrest]
    by_cases h : f x = f a
    · have hnone :
          (xs.filter fun b => (f b == f x) = false).find? (fun b => f b == f a) = none := by
        refine List.find?_eq_none.mpr fun b hb hba => ?_
        have hne := (List.mem_filter.mp hb).2
        rw [beq_iff_eq.mp hba, h] at hne
        simp at hne
      rw [hnone, List.find?_cons_of_pos (p := fun b => f b == f a) (beq_iff_eq.mpr h),
        Option.some.injEq]
      simp [eq_comm]
    · have hsame : (xs.filter fun b => (f b == f x) = false).find? (fun b => f b == f a) =
          xs.find? fun b => f b == f a := by
        rw [List.find?_filter]
        congr 1
        funext b
        by_cases hb : f b = f a
        · simp [hb, Ne.symm h]
        · simp [hb]
      have hne : a ≠ x := fun he => h (congrArg f he.symm)
      rw [hsame, List.find?_cons_of_neg (p := fun b => f b == f a) (by simp [h])]
      simp [hne]
termination_by xs.length
decreasing_by exact Nat.lt_succ_of_le (List.length_filter_le _ _)

end EraseDups

namespace Candidate

variable {options : Options} {v : Value}

-- Texts that spell an integer are integer keys.
theorem canonicalInt?_of_ofValue {text : String} (ho : options.canonicalIntegerKeys)
    (h : ofValue options v = .key (.str text)) : canonicalInt? text = none := by
  have hint : ∀ n : Option Int32, ofInt? n ≠ .key (.str text) := by
    intro n
    cases n <;> simp [ofInt?]
  cases v <;> try simp [ofValue, hint] at h
  case null => subst h; decide
  case str s =>
    cases hs : canonicalInt? s with
    | some n => simp [hs, ho] at h
    | none =>
      simp only [hs, key.injEq, Key.str.injEq] at h
      exact h ▸ hs
  case any kind => cases kind <;> simp [ofInt?] at h

theorem ofValue_ne_integerText (ho : options.canonicalIntegerKeys) (n : Int32) :
    ofValue options v ≠ .key (.str (integerText n.toInt)) := by
  intro h
  have hnone := canonicalInt?_of_ofValue ho h
  rw [canonicalInt?_integerText] at hnone
  cases hnone

theorem key?_eq_some_iff {c : Candidate} {k : Key} : c.key? = some k ↔ c = .key k := by
  cases c <;> simp [key?]

theorem isConcrete_eq_false_iff {c : Candidate} :
    c.isConcrete = false ↔ ∃ integer maybeIllegal, c = .unknown integer maybeIllegal := by
  cases c <;> simp [isConcrete]

theorem isInteger_of_isConcrete {c : Candidate} (hc : c.isConcrete) :
    c.isInteger ↔ ∃ n, c = .key (.int n) := by
  cases c with
  | key k => cases k <;> simp [isInteger]
  | unknown integer maybeIllegal => cases hc
  | illegal => simp [isInteger]

end Candidate

-- Of the values that have the name of an integer, the first is the text of its digits.
def Hidden (options : Options) (key : Entry) (n : Int32) : Prop :=
  ∃ front v back, key.values = front ++ v :: back ∧
    Candidate.ofValue options v = .key (.str (integerText n.toInt)) ∧
    ∀ w ∈ front, ∀ k, Candidate.ofValue options w = .key k → k.name ≠ integerText n.toInt

namespace IndexClass

variable {options : Options} {key key' : Entry} {v : Value} {k k' : Key} {n : Int32}
  {name : String}

theorem isConcrete_iff : (ofEntry options key).isConcrete ↔
    ∀ v ∈ key.values, (Candidate.ofValue options v).isConcrete := by
  simp [ofEntry, ofCandidates]

theorem isConcrete_eq_false_iff : (ofEntry options key).isConcrete = false ↔
    ∃ v ∈ key.values, (Candidate.ofValue options v).isConcrete = false := by
  simp [ofEntry, ofCandidates]

theorem isInteger_eq_false_iff : (ofEntry options key).isInteger = false ↔
    ∃ v ∈ key.values, (Candidate.ofValue options v).isInteger = false := by
  simp [ofEntry, ofCandidates]

theorem mem_candidates :
    k ∈ (key.values.map (Candidate.ofValue options)).filterMap Candidate.key? ↔
      ∃ v ∈ key.values, Candidate.ofValue options v = .key k := by
  simp [Candidate.key?_eq_some_iff]

-- Of the keys with one name the first is found.
theorem mem_keys_iff : k ∈ (ofEntry options key).keys ↔
    ∃ front v back, key.values = front ++ v :: back ∧ Candidate.ofValue options v = .key k ∧
      ∀ w ∈ front, ∀ k', Candidate.ofValue options w = .key k' → k'.name ≠ k.name := by
  rw [ofEntry, ofCandidates, mem_eraseDupsBy_iff, List.find?_filterMap, List.find?_map,
    Option.bind_eq_some_iff]
  simp only [Option.map_eq_some_iff, List.find?_eq_some_iff_append]
  constructor
  · rintro ⟨_, ⟨v, ⟨-, front, back, hvalues, hfront⟩, rfl⟩, hk⟩
    refine ⟨front, v, back, hvalues, Candidate.key?_eq_some_iff.mp hk, fun w hw k' hk' => ?_⟩
    simpa [hk', Candidate.key?] using hfront w hw
  · rintro ⟨front, v, back, hvalues, hk, hfront⟩
    refine ⟨_, ⟨v, ⟨by simp [hk, Candidate.key?], front, back, hvalues, fun w hw => ?_⟩, rfl⟩,
      Candidate.key?_eq_some_iff.mpr hk⟩
    cases hw' : Candidate.ofValue options w with
    | key k' => simpa [hw', Candidate.key?] using hfront w hw k' hw'
    | unknown integer maybeIllegal => simp [hw', Candidate.key?]
    | illegal => simp [hw', Candidate.key?]

theorem exists_of_mem_keys (h : k ∈ (ofEntry options key).keys) :
    ∃ v ∈ key.values, Candidate.ofValue options v = .key k := by
  obtain ⟨front, v, back, hvalues, hk, -⟩ := mem_keys_iff.mp h
  exact ⟨v, by simp [hvalues], hk⟩

-- No name is lost, though a key is if another has its name.
theorem mem_names : name ∈ (ofEntry options key).keys.map Key.name ↔
    ∃ k, (∃ v ∈ key.values, Candidate.ofValue options v = .key k) ∧ k.name = name := by
  rw [ofEntry, ofCandidates, map_eraseDupsBy, List.mem_eraseDups, List.mem_map]
  simp only [mem_candidates]

theorem eq_of_name_eq (hk : k ∈ (ofEntry options key).keys) (hk' : k' ∈ (ofEntry options key).keys)
    (h : k.name = k'.name) : k = k' := by
  have hnodup : ((ofEntry options key).keys.map Key.name).Nodup := by
    rw [ofEntry, ofCandidates, map_eraseDupsBy]
    exact nodup_eraseDups _
  exact List.inj_on_of_nodup_map hnodup hk hk' h

theorem mem_intKeys : n ∈ (ofEntry options key).intKeys ↔ .int n ∈ (ofEntry options key).keys := by
  rw [intKeys, List.mem_filterMap]
  constructor
  · rintro ⟨k, hk, hn⟩
    cases k with
    | int m => exact Option.some.inj hn ▸ hk
    | str text => cases hn
  · intro h
    exact ⟨_, h, rfl⟩

-- An integer gives way only to the text of its digits.
theorem mem_intKeys_or (hv : v ∈ key.values) (hn : Candidate.ofValue options v = .key (.int n)) :
    n ∈ (ofEntry options key).intKeys ∨
      .str (integerText n.toInt) ∈ (ofEntry options key).keys := by
  have hname : integerText n.toInt ∈ (ofEntry options key).keys.map Key.name :=
    mem_names.mpr ⟨.int n, ⟨v, hv, hn⟩, rfl⟩
  obtain ⟨k, hk, hname⟩ := List.mem_map.mp hname
  cases k with
  | int m =>
    obtain rfl := integerText_inj hname
    exact .inl (mem_intKeys.mpr hk)
  | str text =>
    obtain rfl : text = integerText n.toInt := hname
    exact .inr hk

-- It does so where the text is found first.
theorem mem_intKeys_iff (hv : v ∈ key.values) (hn : Candidate.ofValue options v = .key (.int n)) :
    n ∈ (ofEntry options key).intKeys ↔ ¬Hidden options key n := by
  constructor
  · intro h hhidden
    cases eq_of_name_eq (mem_intKeys.mp h) (mem_keys_iff.mpr hhidden) rfl
  · intro hhidden
    rcases mem_intKeys_or hv hn with h | h
    · exact h
    · exact absurd (mem_keys_iff.mp h) hhidden

theorem not_hidden (ho : options.canonicalIntegerKeys) : ¬Hidden options key n := by
  rintro ⟨-, w, -, -, hw, -⟩
  exact Candidate.ofValue_ne_integerText ho n hw

end IndexClass

end AbsEval
