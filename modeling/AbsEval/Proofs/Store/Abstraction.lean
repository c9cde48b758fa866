import AbsEval.Proofs.Store.Lookup
import AbsEval.Value.Meaning

namespace AbsEval

namespace Value

-- The value itself, or a kind that has all families of the value.
def Subsumes (w v : Value) : Prop :=
  v = w ∨ ∃ kind, w = any kind ∧ v.families ⊆ kind.families

theorem any_value_subsumes (v : Value) : (any .value).Subsumes v :=
  .inr ⟨.value, rfl, fun family _ => family.mem_all⟩

theorem not_null_subsumes_any (kind : Kind) : ¬null.Subsumes (any kind) := by
  rintro (h | ⟨wider, h, -⟩) <;> cases h

theorem exists_text_of_describes {c : Value} (h : (any .string).Describes c) :
    ∃ text, c = str text := by
  obtain ⟨hconcrete, hfamilies⟩ := h
  cases c with
  | str text => exact ⟨text, rfl⟩
  | intRange range | longRange range | floatRange range | any kind | marker m => cases hconcrete
  | _ => exact absurd hfamilies (by simp [families, Kind.families])

end Value

-- The family of the values that an access finds members in.
def Access.family : Access → Family
  | .index => .array
  | .field => .object

namespace Store

variable {store : Store} {access : Access} {selector : Selector} {c : Value} {kind : Kind}

-- Where a kind has values with members, nothing is known of these.
theorem read_kind_of_mem (h : access.family ∈ kind.families) :
    store.read ((Path.ofValue (.any kind)).member access selector) = .single (.any .value) := by
  cases access <;> cases kind <;> first | rfl | exact absurd h (by decide)

-- The kind of texts has offsets. Other kinds without members have none, though they may have texts.
theorem read_kind_of_not_mem (h : access.family ∉ kind.families) :
    store.read ((Path.ofValue (.any kind)).member access selector) =
      .single (if access = .index ∧ kind = .string then .any .string else .null) := by
  cases access <;> cases kind <;> first | rfl | exact absurd (by decide) h

theorem read_text (text : String) :
    store.read ((Path.ofValue (.str text)).member .index selector) = .single (.any .string) :=
  rfl

theorem read_of_no_members (hconcrete : c.isConcrete) (hmembers : access.family ∉ c.families)
    (htext : ¬(access = .index ∧ ∃ text, c = .str text)) :
    store.read ((Path.ofValue c).member access selector) = .single .null := by
  cases c with
  | str text =>
    cases access with
    | index => exact absurd ⟨rfl, text, rfl⟩ htext
    | field => rfl
  | array id =>
    cases access with
    | index => exact absurd (List.mem_singleton_self _) hmembers
    | field => rfl
  | object id className =>
    cases access with
    | index => rfl
    | field => exact absurd (List.mem_singleton_self _) hmembers
  | intRange range | longRange range | floatRange range | any kind | marker m => cases hconcrete
  | null | bool b | int n | long n | float x | resource id => cases access <;> rfl

-- The kinds that have texts and no arrays.
theorem kind_of_text {text : String} (h : (Value.any kind).Describes (.str text))
    (hmembers : Family.array ∉ kind.families) : kind = .scalar ∨ kind = .string := by
  have hstring : Family.string ∈ kind.families := h.2 (List.mem_singleton_self _)
  revert hstring hmembers
  cases kind <;> decide

-- What is found in a value of a kind is subsumed by what is found for the kind, except at an offset
-- into a scalar that is a text.
theorem read_kind_subsumes_iff (store : Store) (access : Access) (selector : Selector)
    (h : (Value.any kind).Describes c) :
    (∀ v ∈ (store.read ((Path.ofValue c).member access selector)).values,
      ∃ w ∈ (store.read ((Path.ofValue (.any kind)).member access selector)).values,
        w.Subsumes v) ↔
    ¬(kind = .scalar ∧ access = .index ∧ ∃ text, c = .str text) := by
  by_cases hkind : access.family ∈ kind.families
  · rw [read_kind_of_mem hkind]
    refine iff_of_true (fun v _ => ⟨_, List.mem_singleton_self _, v.any_value_subsumes⟩) ?_
    rintro ⟨rfl, rfl, -⟩
    exact absurd hkind (by decide)
  · rw [read_kind_of_not_mem hkind]
    by_cases htext : access = .index ∧ ∃ text, c = .str text
    · obtain ⟨rfl, text, rfl⟩ := htext
      rw [read_text]
      rcases kind_of_text h hkind with rfl | rfl
      · simp [Value.not_null_subsumes_any]
      · simp [Value.Subsumes]
    · have hmembers : access.family ∉ c.families := fun hc => hkind (h.2 hc)
      have hnull : ¬(access = .index ∧ kind = .string) := by
        rintro ⟨haccess, rfl⟩
        exact htext ⟨haccess, Value.exists_text_of_describes h⟩
      rw [read_of_no_members h.1 hmembers htext, if_neg hnull]
      exact iff_of_true (fun v hv => ⟨v, hv, .inl rfl⟩) fun hne => htext hne.2

-- An array that is one of its own members.
def ownMember : Store :=
  Store.empty.newArray.2.write (.member (.ofValue (.array 0)) .index (.single "k"))
    (.union (.single (.int 5)) (.single (.array 0)))

theorem read_kind_subsumes_ownMember :
    (Value.any .compound).Describes (.array 0) ∧
    (ownMember.read (.member (.ofValue (.array 0)) .index .any)).values =
      [.int 5, .array 0, .null] ∧
    ∀ v ∈ (ownMember.read (.member (.ofValue (.array 0)) .index .any)).values,
      ∃ w ∈ (ownMember.read (.member (.ofValue (.any .compound)) .index .any)).values,
        w.Subsumes v := by
  have hdescribes : (Value.any .compound).Describes (.array 0) :=
    Value.describes_any rfl (by decide)
  refine ⟨hdescribes, by decide, (read_kind_subsumes_iff _ _ _ hdescribes).mpr ?_⟩
  rintro ⟨h, -⟩
  cases h

-- Any scalar may be a text, but only null is found at an offset into it.
theorem read_scalar_misses_offset :
    (Value.any .scalar).Describes (.str "abc") ∧
    ¬∀ v ∈ (Store.empty.read (.member (.ofValue (.str "abc")) .index (.single "0"))).values,
      ∃ w ∈ (Store.empty.read (.member (.ofValue (.any .scalar)) .index (.single "0"))).values,
        w.Subsumes v := by
  refine ⟨Value.describes_any rfl (by decide), fun h => ?_⟩
  obtain ⟨w, hw, hsubsumes⟩ := h (.any .string) (List.mem_singleton_self _)
  rw [List.mem_singleton.mp hw] at hsubsumes
  exact Value.not_null_subsumes_any .string hsubsumes

end Store

end AbsEval
