import AbsEval.Proofs.Literal.Keys
import AbsEval.Proofs.Store.Lookup
import AbsEval.Value.Meaning

namespace AbsEval

-- Every key within reach of the other access is within reach of this one, and this one is open if
-- the other one is.
structure Selector.Includes (selector other : Selector) : Prop where
  mayTouch : ∀ key, other.mayTouch key → selector.mayTouch key
  isOpen : other = .any → selector = .any

theorem Selector.mem_keys_iff {selector : Selector} {key : String} :
    key ∈ selector.keys ↔ selector ≠ .any ∧ selector.mayTouch key := by
  cases selector <;> simp [keys, mayTouch]

theorem Selector.any_includes (other : Selector) : Selector.any.Includes other :=
  ⟨fun _ _ => rfl, fun _ => rfl⟩

namespace Candidate

variable {options : Options} {v c : Value}

-- What a value stands for comes to the same key as the value, if this is known. A compound value is
-- taken for illegal, though a resource is not.
theorem ofValue_of_describes (hv : v ≠ .any .compound) (hk : (ofValue options v).isConcrete)
    (hc : v.Describes c) : ofValue options c = ofValue options v := by
  cases v <;> try (obtain rfl := hc; rfl)
  case any kind =>
    obtain ⟨hconcrete, hfamilies⟩ := hc
    cases kind <;> simp [ofValue, ofInt?, isConcrete] at hk hv
    all_goals cases c <;> simp_all [Value.isConcrete, Value.families, Kind.families, ofValue]
  case marker m => exact hc.elim
  all_goals simp [ofValue, ofInt?, isConcrete] at hk

end Candidate

namespace IndexClass

variable {options : Options} {e : Entry} {c v : Value} {k : Key} {name : String}

theorem selector_eq_any_iff : (ofEntry options e).selector = .any ↔
    ∃ v ∈ e.values, (Candidate.ofValue options v).isConcrete = false := by
  rw [← isConcrete_eq_false_iff]
  unfold selector
  cases (ofEntry options e).isConcrete <;> simp [Selector.ofList]

theorem mayTouch_selector (h : (ofEntry options e).selector ≠ .any) :
    (ofEntry options e).selector.mayTouch name ↔
      ∃ k, (∃ v ∈ e.values, Candidate.ofValue options v = .key k) ∧ k.name = name := by
  have hconcrete : (ofEntry options e).isConcrete := by
    rw [Ne, selector_eq_any_iff, ← isConcrete_eq_false_iff] at h
    simpa using h
  rw [selector, if_pos hconcrete, Selector.ofList, Selector.mayTouch, decide_eq_true_iff,
    List.mem_eraseDups, mem_names]

theorem nodup_selector : (ofEntry options e).selector.keys.Nodup := by
  unfold selector
  split
  · exact nodup_eraseDups _
  · exact List.nodup_nil

theorem mayTouch_of_key (hv : v ∈ e.values) (hk : Candidate.ofValue options v = .key k) :
    (ofEntry options e).selector.mayTouch k.name := by
  by_cases hany : (ofEntry options e).selector = .any
  · rw [hany]
    rfl
  · exact (mayTouch_selector hany).mpr ⟨k, ⟨v, hv, hk⟩, rfl⟩

-- The one value of an index is within reach as soon as its key is, if it comes to one.
theorem includes_single (hconcrete : (Candidate.ofValue options c).isConcrete)
    (hkey : ∀ k, Candidate.ofValue options c = .key k →
      (ofEntry options e).selector.mayTouch k.name) :
    (ofEntry options e).selector.Includes (ofEntry options (.single c)).selector := by
  have hclosed : (ofEntry options (.single c)).selector ≠ .any := by
    rw [Ne, selector_eq_any_iff]
    simp [hconcrete]
  refine ⟨fun key hmay => ?_, fun hany => absurd hany hclosed⟩
  obtain ⟨k, ⟨v, hv, hk⟩, rfl⟩ := (mayTouch_selector hclosed).mp hmay
  obtain rfl : v = c := by simpa using hv
  exact hkey k hk

-- An unknown compound value is passed over as a whole, the resources among its members are not.
theorem includes_of_describes (hv : v ∈ e.values) (hc : v.Describes c)
    (hresource : v = .any .compound → ∀ id, c ≠ .resource id) :
    (ofEntry options e).selector.Includes (ofEntry options (.single c)).selector := by
  by_cases hconcrete : (Candidate.ofValue options v).isConcrete
  · by_cases hcompound : v = .any .compound
    · subst hcompound
      have hillegal : Candidate.ofValue options c = .illegal := by
        obtain ⟨hc, hf⟩ := hc
        cases c with
        | array id | object id className => rfl
        | resource id => exact absurd rfl (hresource rfl id)
        | intRange range | longRange range | floatRange range | any kind | marker m => cases hc
        | null | bool b | int n | long n | float x | str text =>
          simp [Value.families, Kind.families, Family.compound] at hf
      refine includes_single (by rw [hillegal]; rfl) fun k hk => ?_
      rw [hillegal] at hk
      cases hk
    · have hsame := Candidate.ofValue_of_describes hcompound hconcrete hc
      refine includes_single (by rw [hsame]; exact hconcrete) fun k hk => ?_
      exact mayTouch_of_key hv (hsame ▸ hk)
  · have hany : (ofEntry options e).selector = .any :=
      selector_eq_any_iff.mpr ⟨v, hv, by simpa using hconcrete⟩
    rw [hany]
    exact Selector.any_includes _

-- No 32-bit integer is the number of this resource, so nothing is known of its key.
theorem selector_resource_beyond :
    (ofEntry options (.single (.resource 4294967295))).selector = .any := by
  refine selector_eq_any_iff.mpr ⟨_, List.mem_singleton_self _, ?_⟩
  show (Candidate.ofInt? (int32? (4294967295 : UInt32).toNat)).isConcrete = false
  decide

end IndexClass

namespace Eval

variable (options : Options) (state : State) {e : Entry}

theorem run_selectorOf (h : ∀ v ∈ e.values, v.isMarker = false) :
    ((selectorOf e).run options state).1 = .ok (IndexClass.ofEntry options e).selector := by
  have hindex : (index e).run options state = (.ok (IndexClass.ofEntry options e),
      state.reporting (illegalReports options .illegalOffset e.values)) := run_classify h
  unfold selectorOf
  rw [run_bind_ok options state hindex]
  rfl

theorem run_selectorOf_single {v c : Value} (h : v.Describes c) :
    ((selectorOf (.single c)).run options state).1 =
      .ok (IndexClass.ofEntry options (.single c)).selector := by
  refine run_selectorOf options state ?_
  have hconcrete := Value.isConcrete_of_describes h
  rw [Entry.values_single, List.forall_mem_singleton]
  cases c <;> first | rfl | cases hconcrete

-- What an index is found to reach includes what each value stood for reaches, but for resources
-- that an unknown compound value stands for. These are included, all of them, exactly if the index
-- is open for another reason.
theorem selectorOf_includes (h : ∀ v ∈ e.values, v.isMarker = false) :
    ∃ selector, ((selectorOf e).run options state).1 = .ok selector ∧
      (∀ v ∈ e.values, ∀ c, v.Describes c → (v = .any .compound → ∀ id, c ≠ .resource id) →
        ∃ other, ((selectorOf (.single c)).run options state).1 = .ok other ∧
          selector.Includes other) ∧
      ((∀ v ∈ e.values, ∀ c, v.Describes c →
        ∃ other, ((selectorOf (.single c)).run options state).1 = .ok other ∧
          selector.Includes other) ↔
        (.any .compound ∈ e.values → selector = .any)) := by
  have hmember : ∀ v ∈ e.values, ∀ c, v.Describes c →
      (v = .any .compound → ∀ id, c ≠ .resource id) →
      ∃ other, ((selectorOf (.single c)).run options state).1 = .ok other ∧
        (IndexClass.ofEntry options e).selector.Includes other := fun v hv c hc hresource =>
    ⟨_, run_selectorOf_single options state hc,
      IndexClass.includes_of_describes hv hc hresource⟩
  refine ⟨_, run_selectorOf options state h, hmember, ?_, ?_⟩
  · intro hall hcompound
    have hdescribes : (Value.any .compound).Describes (.resource 4294967295) :=
      Value.describes_any rfl (by decide)
    obtain ⟨other, hrun, hincludes⟩ := hall _ hcompound _ hdescribes
    rw [run_selectorOf_single options state hdescribes,
      IndexClass.selector_resource_beyond] at hrun
    exact hincludes.isOpen (Except.ok.inj hrun).symm
  · intro hopen v hv c hc
    by_cases hcompound : v = .any .compound
    · subst hcompound
      refine ⟨_, run_selectorOf_single options state hc, ?_⟩
      rw [hopen hv]
      exact Selector.any_includes _
    · exact hmember v hv c hc fun h => absurd h hcompound

-- A compound value beside an unknown text: the index is open for the text.
theorem selectorOf_includes_textOrCompound :
    (∀ v ∈ (Entry.ofNonempty [.any .compound, .any .string] (by simp)).values,
      v.isMarker = false) ∧
      (Value.any .compound).Describes (.resource 5) ∧
      ∃ selector, ((selectorOf (.ofNonempty [.any .compound, .any .string] (by simp))).run {}
        .initial).1 = .ok selector ∧ selector = .any ∧
        ∃ other, ((selectorOf (.single (.resource 5))).run {} .initial).1 = .ok other ∧
          selector.Includes other := by
  have hdata : ∀ v ∈ (Entry.ofNonempty [.any .compound, .any .string] (by simp)).values,
      v.isMarker = false := by
    simp [Value.isMarker]
  have hresource : (Value.any .compound).Describes (.resource 5) :=
    Value.describes_any rfl (by decide)
  obtain ⟨selector, hrun, -, hall⟩ := selectorOf_includes {} .initial hdata
  have hopen : selector = .any := by
    rw [run_selectorOf {} .initial hdata] at hrun
    rw [← Except.ok.inj hrun]
    exact IndexClass.selector_eq_any_iff.mpr ⟨.any .string, by simp, rfl⟩
  exact ⟨hdata, hresource, selector, hrun, hopen,
    hall.mpr (fun _ => hopen) _ (by simp) _ hresource⟩

-- An unknown compound value alone reaches nothing, a resource reaches the key of its number.
theorem selectorOf_misses_resource :
    (Value.any .compound).Describes (.resource 5) ∧
      ((selectorOf (.single (.any .compound))).run {} .initial).1 = .ok (.names []) ∧
      ((selectorOf (.single (.resource 5))).run {} .initial).1 = .ok (.names ["5"]) ∧
      ¬(Selector.names []).Includes (.names ["5"]) := by
  have hresource : (Value.any .compound).Describes (.resource 5) :=
    Value.describes_any rfl (by decide)
  refine ⟨hresource, run_selectorOf {} .initial (by simp [Value.isMarker]),
    run_selectorOf_single {} .initial hresource, ?_⟩
  intro h
  exact absurd (h.mayTouch "5" (by decide)) (by decide)

end Eval

end AbsEval
