import AbsEval.Proofs.Index.Resolution
import AbsEval.Proofs.Literal.Collecting
import AbsEval.Proofs.Value.Admits

namespace AbsEval

namespace Candidate

variable {options : Options} {v : Value}

theorem exists_resolves_ofInt? (n : Option Int32) : ∃ k, (ofInt? n).Resolves (some k) := by
  cases n with
  | none => exact ⟨.int 0, .unknown ..⟩
  | some n => exact ⟨.int n, .key _⟩

theorem key?_of_resolves {candidate : Candidate} {k : Option Key} (h : candidate.isConcrete)
    (hk : candidate.Resolves k) : candidate.key? = k := by
  cases hk with
  | key k => rfl
  | unknown integer maybeIllegal n => cases h
  | illegal => rfl

-- A value of which no key is known stands for one that comes to a key.
theorem exists_resolves (h : (ofValue options v).isConcrete = false) :
    ∃ c k, v.Describes c ∧ (ofValue options c).Resolves (some k) := by
  have hint : ∀ {c n}, v.Describes c → ofValue options c = ofInt? n →
      ∃ c k, v.Describes c ∧ (ofValue options c).Resolves (some k) := by
    intro c n hc hn
    obtain ⟨k, hk⟩ := exists_resolves_ofInt? n
    exact ⟨c, k, hc, hn ▸ hk⟩
  by_cases hv : v.isConcrete
  · obtain ⟨integer, maybeIllegal, hunknown⟩ := isConcrete_eq_false_iff.mp h
    exact ⟨v, .int 0, Value.describes_self hv, hunknown ▸ .unknown ..⟩
  cases v with
  | intRange range =>
    obtain ⟨_, n, rfl, hn⟩ := Value.exists_describes (v := .intRange range) rfl
    exact ⟨.int n, .int n, ⟨n, rfl, hn⟩, .key _⟩
  | longRange range =>
    obtain ⟨_, n, rfl, hn⟩ := Value.exists_describes (v := .longRange range) rfl
    exact hint ⟨n, rfl, hn⟩ rfl
  | floatRange range =>
    obtain ⟨_, x, rfl, hx⟩ := Value.exists_describes (v := .floatRange range) rfl
    exact hint ⟨x, rfl, hx⟩ rfl
  | any kind =>
    cases kind with
    | value | scalar | integer =>
      exact ⟨.int 0, .int 0, Value.describes_any rfl (by decide), .key _⟩
    | boolean => exact ⟨.bool false, .int 0, Value.describes_any rfl (by decide), .key _⟩
    | string => exact ⟨.str "", .str "", Value.describes_any rfl (by decide), .key _⟩
    | longint => exact hint (c := .long 0) (Value.describes_any rfl (by decide)) rfl
    | float => exact hint (c := .float .zero) (Value.describes_any rfl (by decide)) rfl
    | resource => exact hint (c := .resource 0) (Value.describes_any rfl (by decide)) rfl
    | compound | array | object => cases h
  | marker m => cases h
  | _ => exact absurd rfl hv

end Candidate

namespace Value

variable {options : Options} {v : Value} {k : Key}

-- A value that is known comes to a key.
def NamesKey (options : Options) (v : Value) (k : Key) : Prop :=
  v.isConcrete ∧ Candidate.ofValue options v = .key k

-- A value may come to a key that it does not name. An unknown compound value is not counted, though
-- it may be a resource.
def IsOpenKey (options : Options) (v : Value) : Prop :=
  v ≠ any .compound ∧
    ∃ c k, v.Describes c ∧ (Candidate.ofValue options c).Resolves (some k) ∧ ¬v.NamesKey options k

theorem namesKey_iff : v.NamesKey options k ↔ Candidate.ofValue options v = .key k := by
  refine ⟨And.right, fun h => ⟨?_, h⟩⟩
  cases v with
  | any kind => cases kind <;> cases h
  | intRange range | longRange range | floatRange range | marker m => cases h
  | _ => rfl

theorem isOpenKey_iff : v.IsOpenKey options ↔ (Candidate.ofValue options v).isConcrete = false := by
  constructor
  · rintro ⟨hv, c, k, hc, hk, hnames⟩
    refine Bool.eq_false_iff.mpr fun hconcrete => hnames ?_
    rw [Candidate.ofValue_of_describes hv hconcrete hc] at hk
    rw [namesKey_iff, ← Candidate.key?_eq_some_iff]
    exact Candidate.key?_of_resolves hconcrete hk
  · intro h
    obtain ⟨c, k, hc, hk⟩ := Candidate.exists_resolves h
    refine ⟨?_, c, k, hc, hk, fun hnames => ?_⟩
    · rintro rfl
      cases h
    · rw [namesKey_iff.mp hnames] at h
      cases h

end Value

section Positions

variable {options : Options} {keys : List (Option Entry)} {i : Nat} {key : Entry} {name : String}
  {selector : Selector}

-- The key of an item is unknown: it may be one that is not named, or it is left out behind such a
-- key.
def OpenAt (options : Options) (keys : List (Option Entry)) (i : Nat) : Prop :=
  ∃ key, (keys[i]? = some (some key) ∨ keys[i]? = some none ∧ some key ∈ keys.take i) ∧
    ∃ v ∈ key.values, v.IsOpenKey options

-- The names that an item has otherwise.
inductive NamesAt (options : Options) (keys : List (Option Entry)) (i : Nat) : String → Prop where
  | key {key : Entry} {v : Value} {k : Key} : ¬OpenAt options keys i →
      keys[i]? = some (some key) → v ∈ key.values → v.NamesKey options k →
        NamesAt options keys i k.name
  | index {n : Int32} : ¬OpenAt options keys i → keys[i]? = some none →
      LeadsTo options (keys.take i) n → NamesAt options keys i (integerText n.toInt)

theorem NamesAt.not_openAt (h : NamesAt options keys i name) : ¬OpenAt options keys i := by
  cases h <;> assumption

theorem NamesAt.lt_length (h : NamesAt options keys i name) : i < keys.length := by
  cases h with
  | key hclosed hi hv hk => exact (List.getElem?_eq_some_iff.mp hi).1
  | index hclosed hi hn => exact (List.getElem?_eq_some_iff.mp hi).1

theorem openAt_key (hi : keys[i]? = some (some key)) :
    OpenAt options keys i ↔ (IndexClass.ofEntry options key).selector = .any := by
  simp [OpenAt, hi, IndexClass.selector_eq_any_iff, Value.isOpenKey_iff]

theorem namesAt_key (hi : keys[i]? = some (some key)) : NamesAt options keys i name ↔
    ¬OpenAt options keys i ∧ ∃ k, (∃ v ∈ key.values, v.NamesKey options k) ∧ k.name = name := by
  constructor
  · rintro (⟨hclosed, hi', hv, hk⟩ | ⟨-, hi', -⟩)
    · cases hi.symm.trans hi'
      exact ⟨hclosed, _, ⟨_, hv, hk⟩, rfl⟩
    · cases hi.symm.trans hi'
  · rintro ⟨hclosed, k, ⟨v, hv, hk⟩, rfl⟩
    exact .key hclosed hi hv hk

theorem openAt_index (hi : keys[i]? = some none) :
    OpenAt options keys i ↔ HasUnknown options (keys.take i) := by
  simp [OpenAt, hi, HasUnknown, Value.isOpenKey_iff, Candidate.isConcrete_eq_false_iff]

theorem namesAt_index (hi : keys[i]? = some none) : NamesAt options keys i name ↔
    ¬HasUnknown options (keys.take i) ∧
      ∃ n, LeadsTo options (keys.take i) n ∧ integerText n.toInt = name := by
  rw [← openAt_index hi]
  constructor
  · rintro (⟨-, hi', -⟩ | ⟨hclosed, -, hn⟩)
    · cases hi.symm.trans hi'
    · exact ⟨hclosed, _, hn, rfl⟩
  · rintro ⟨hclosed, n, hn, rfl⟩
    exact .index hclosed hi hn

-- An item is written to any key if its key is unknown, otherwise to its names, each of them once.
theorem selector_spec (hi : (itemSelectors options .initial keys)[i]? = some selector) :
    (selector = .any ↔ OpenAt options keys i) ∧ selector.keys.Nodup ∧
      ∀ name, name ∈ selector.keys ↔ NamesAt options keys i name := by
  rw [getElem?_itemSelectors, Option.map_eq_some_iff] at hi
  obtain ⟨item, hi, rfl⟩ := hi
  cases item with
  | some key =>
    refine ⟨(openAt_key hi).symm, IndexClass.nodup_selector, fun name => ?_⟩
    simp only [namesAt_key hi, openAt_key hi, Value.namesKey_iff]
    exact Selector.mem_keys_iff.trans (and_congr_right IndexClass.mayTouch_selector)
  | none =>
    simp only [openAt_index hi, namesAt_index hi]
    by_cases hopen : HasUnknown options (keys.take i)
    · rw [foldl_after_of_hasUnknown hopen]
      exact ⟨iff_of_true rfl hopen, List.nodup_nil, fun name =>
        iff_of_false List.not_mem_nil fun h => h.1 hopen⟩
    · obtain ⟨current, hcurrent, hmem⟩ := exists_foldl_after hopen
      rw [hcurrent]
      refine ⟨iff_of_false Selector.noConfusion hopen, nodup_eraseDups _, fun name => ?_⟩
      simp only [Counter.selectorOf, Counter.selector, Selector.ofList, Selector.keys,
        List.mem_eraseDups, List.mem_map, hmem, hopen, not_false_eq_true, true_and]

theorem selector_eq_single_iff (hi : (itemSelectors options .initial keys)[i]? = some selector) :
    selector = .single name ↔ ∀ other, NamesAt options keys i other ↔ other = name := by
  obtain ⟨-, hnodup, hnames⟩ := selector_spec hi
  simp only [← hnames]
  constructor
  · rintro rfl other
    exact List.mem_singleton
  · intro h
    cases selector with
    | any => cases (h name).mpr rfl
    | names names =>
      have hperm := (List.perm_ext_iff_of_nodup hnodup (List.nodup_singleton name)).mpr fun other =>
        (h other).trans List.mem_singleton.symm
      exact congrArg Selector.names (List.perm_singleton.mp hperm)

end Positions

-- No value of a key gets lost: it has no unknown compound value, no integer behind the text of its
-- digits, and no illegal value beside exactly one name.
structure PlainKey (options : Options) (key : Entry) : Prop where
  noCompound : .any .compound ∉ key.values
  visible : ∀ v ∈ key.values, Visible options v key
  settled : ∀ v ∈ key.values, ∀ c, v.Describes c → Candidate.ofValue options c = .illegal →
    (∃ w ∈ key.values, w.IsOpenKey options) ∨
      ¬∃ name, ∀ other, (∃ k, (∃ w ∈ key.values, w.NamesKey options k) ∧ k.name = other) ↔
        other = name

section Runs

variable {options : Options} {items : List (Option Entry × Entry)} {run : List Placement} {i : Nat}
  {n : Int32} {v c : Value} {key : Entry}

-- A value of a plain key comes to the key that it names.
theorem key_of_resolves {k : Option Key} (hkey : PlainKey options key) (hv : v ∈ key.values)
    (hopen : ¬v.IsOpenKey options) (hc : v.Describes c)
    (hk : (Candidate.ofValue options c).Resolves k) : (Candidate.ofValue options v).key? = k := by
  have hcompound : v ≠ .any .compound := fun h => hkey.noCompound (h ▸ hv)
  have hconcrete : (Candidate.ofValue options v).isConcrete := by
    simpa [Value.isOpenKey_iff] using hopen
  rw [Candidate.ofValue_of_describes hcompound hconcrete hc] at hk
  exact Candidate.key?_of_resolves hconcrete hk

-- An item without a key takes the next free index a step further.
theorem stepIndex_of_nextIndex {m : Int32}
    (h : nextIndex (some m) (some (.int m)) = some n) :
    stepIndex options (some m) none = some n := by
  obtain ⟨next, hnext, rfl⟩ := Option.map_eq_some_iff.mp h
  have hle : m ≤ next := by
    rw [Int32.le_iff_toInt_le, toInt_of_int32?_eq_some hnext]
    omega
  rw [show max m next = next from if_pos hle]
  exact hnext

-- The next free index of a run is among those that are found, from one item to the next and, as
-- long as no key is unknown, behind all of them.

theorem leadsTo_of_placed {front : List (Option Entry)} {item : Option Entry × Entry}
    {placement : Placement} {m : Int32} (hm : LeadsTo options front m)
    (hplaced : Placed options (some m) item placement)
    (hplain : ∀ key, item.1 = some key → PlainKey options key)
    (hknown : ¬∃ key, item.1 = some key ∧ (IndexClass.ofEntry options key).isConcrete = false)
    (hn : nextIndex (some m) placement.key = some n) : LeadsTo options (front ++ [item.1]) n := by
  obtain ⟨item, entry⟩ := item
  cases item with
  | some key =>
    obtain ⟨v, hv, c, hc, hk⟩ := hplaced.key key rfl
    have hclosed : ¬v.IsOpenKey options := fun hopen => hknown ⟨key, rfl,
      IndexClass.isConcrete_eq_false_iff.mpr ⟨v, hv, Value.isOpenKey_iff.mp hopen⟩⟩
    refine leadsTo_append_singleton.mpr
      ⟨m, hm, some v, .some ((hplain key rfl).visible v hv), ?_⟩
    rw [stepIndex, key_of_resolves (hplain key rfl) hv hclosed hc hk]
    exact hn
  | none =>
    rw [hplaced.index rfl] at hn
    exact leadsTo_append_singleton.mpr ⟨m, hm, none, .none, stepIndex_of_nextIndex hn⟩

theorem leadsTo_freeIndex (hp : Places options (some 0) items run)
    (hkeys : ∀ key, some key ∈ items.map Prod.fst → PlainKey options key) (hi : i ≤ items.length)
    (hknown : ¬HasUnknown options ((items.map Prod.fst).take i))
    (hn : freeIndex (some 0) (run.take i) = some n) :
    LeadsTo options ((items.map Prod.fst).take i) n := by
  induction i generalizing n with
  | zero => exact leadsTo_nil.mpr (Option.some.inj hn).symm
  | succ i ih =>
    obtain ⟨placement, hplacement⟩ : ∃ placement, run[i]? = some placement :=
      ⟨_, List.getElem?_eq_getElem (hp.length_eq.symm ▸ hi)⟩
    obtain ⟨item, -, hkey, hplaced⟩ := hp.exists_placed hplacement
    rw [List.take_add_one, hkey, Option.toList_some] at hknown ⊢
    rw [hasUnknown_append_singleton, not_or] at hknown
    rw [List.take_add_one, hplacement, Option.toList_some, freeIndex, List.foldl_append,
      List.foldl_cons, List.foldl_nil, ← freeIndex] at hn
    cases hfree : freeIndex (some 0) (run.take i) with
    | none =>
      rw [hfree, nextIndex_none] at hn
      cases hn
    | some m =>
      rw [hfree] at hn hplaced
      have hm := ih (Nat.le_of_succ_le hi) hknown.1 hfree
      exact leadsTo_of_placed hm hplaced
        (fun key hsome => hkeys key (hsome ▸ List.mem_of_getElem? hkey)) hknown.2 hn

-- An item goes to one of its names unless its key is unknown.
theorem openAt_or_namesAt {placement : Placement} {k : Key}
    (hp : Places options (some 0) items run)
    (hkeys : ∀ key, some key ∈ items.map Prod.fst → PlainKey options key)
    (hi : run[i]? = some placement) (hk : placement.key = some k) :
    OpenAt options (items.map Prod.fst) i ∨ NamesAt options (items.map Prod.fst) i k.name := by
  refine or_iff_not_imp_left.mpr fun hclosed => ?_
  obtain ⟨⟨item, entry⟩, hitem, hkey, hplaced⟩ := hp.exists_placed hi
  cases item with
  | some key =>
    obtain ⟨v, hv, c, hc, hresolves⟩ := hplaced.key key rfl
    have hplain := hkeys key (List.mem_of_getElem? hkey)
    have hnames := key_of_resolves hplain hv (fun hopen => hclosed ⟨key, .inl hkey, v, hv, hopen⟩)
      hc hresolves
    rw [hk, Candidate.key?_eq_some_iff, ← Value.namesKey_iff] at hnames
    exact .key hclosed hkey hv hnames
  | none =>
    rw [hplaced.index rfl] at hk
    obtain ⟨n, hn, rfl⟩ := Option.map_eq_some_iff.mp hk
    have hle : i ≤ items.length := Nat.le_of_lt (List.getElem?_eq_some_iff.mp hitem).1
    exact .index hclosed hkey
      (leadsTo_freeIndex hp hkeys hle (mt (openAt_index hkey).mpr hclosed) hn)

end Runs

end AbsEval
