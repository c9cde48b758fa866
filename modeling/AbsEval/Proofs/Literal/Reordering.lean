import AbsEval.Proofs.Literal.Counter
import Mathlib.Data.List.Forall2

namespace AbsEval

-- The same items, the values of their keys in another order.
def Reordered (items items' : List (Option Entry)) : Prop :=
  List.Forall₂ (Option.Rel fun key key' => key.values.Perm key'.values) items items'

-- Both any key, or the same names.
inductive Selector.Agrees : Selector → Selector → Prop where
  | any : Agrees .any .any
  | names {names names' : List String} : (∀ name, name ∈ names ↔ name ∈ names') →
      Agrees (.names names) (.names names')

-- A known key may be an integer or the text of its digits, and the integer has an index behind it.
-- The one that is found first hides the other.
def Shadows (options : Options) (key : Entry) : Prop :=
  (∀ v ∈ key.values, (Candidate.ofValue options v).isConcrete) ∧
    ∃ n : Int32, 0 ≤ n ∧ n ≠ Int32.maxValue ∧
      (∃ v ∈ key.values, Candidate.ofValue options v = .key (.int n)) ∧
      ∃ v ∈ key.values, Candidate.ofValue options v = .key (.str (integerText n.toInt))

-- The keys that shadow have kept their order.
def ShadowsKept (options : Options) (items items' : List (Option Entry)) : Prop :=
  ∀ key key', (some key, some key') ∈ items.zip items' → key = key' ∨ ¬Shadows options key

theorem toInt_max (m n : Int32) : (max m n).toInt = max m.toInt n.toInt := by
  show (if m ≤ n then n else m).toInt = _
  simp only [Int32.le_iff_toInt_le]
  split <;> omega

theorem exists_int32?_succ {n : Int32} (h : n ≠ Int32.maxValue) :
    ∃ next, int32? (n.toInt + 1) = some next := by
  have hlow := n.le_toInt
  have hhigh := n.toInt_lt
  have hne : n.toInt ≠ 2 ^ 31 - 1 := fun hn =>
    h (Int32.toInt_inj.mp (hn.trans Int32.toInt_maxValue.symm))
  exact exists_int32? (by omega) (by omega)

section Perm

variable {options : Options} {key key' : Entry} {n : Int32} {v : Value}

theorem not_shadows (ho : options.canonicalIntegerKeys) : ¬Shadows options key := by
  rintro ⟨-, n, -, -, -, v, -, hv⟩
  exact Candidate.ofValue_ne_integerText ho n hv

theorem Shadows.of_perm (hkey : key.values.Perm key'.values) (h : Shadows options key) :
    Shadows options key' := by
  simpa only [Shadows, hkey.mem_iff] using h

theorem isConcrete_of_perm (hkey : key.values.Perm key'.values) :
    (IndexClass.ofEntry options key).isConcrete =
      (IndexClass.ofEntry options key').isConcrete :=
  (hkey.map _).all_eq

theorem isInteger_of_perm (hkey : key.values.Perm key'.values) :
    (IndexClass.ofEntry options key).isInteger = (IndexClass.ofEntry options key').isInteger :=
  (hkey.map _).all_eq

theorem agrees_selector (hkey : key.values.Perm key'.values) :
    (IndexClass.ofEntry options key).selector.Agrees
      (IndexClass.ofEntry options key').selector := by
  unfold IndexClass.selector
  rw [isConcrete_of_perm hkey]
  split
  · refine .names fun name => ?_
    simp only [List.mem_eraseDups, IndexClass.mem_names, hkey.mem_iff]
  · exact .any

end Perm

namespace Counter

variable {options : Options} {counter counter' : Counter} {current current' : List Int32}
  {key key' : Entry} {n : Int32}

-- Both unknown, or the same indexes. No index is negative.
def Agrees (counter counter' : Counter) : Prop :=
  Option.Rel (fun current current' => (∀ n, n ∈ current ↔ n ∈ current') ∧ ∀ n ∈ current, 0 ≤ n)
    counter counter'

theorem agrees_initial : Agrees .initial .initial :=
  .some ⟨fun _ => Iff.rfl, List.forall_mem_singleton.mpr (Int32.le_refl 0)⟩

theorem agrees_selector (h : counter.Agrees counter') :
    counter.selector.Agrees counter'.selector := by
  cases h with
  | none => exact .any
  | some h =>
    refine .names fun name => ?_
    simp only [List.mem_eraseDups, List.mem_map, h.1]

theorem nonneg_of_mem_successors {keys : List Int32} (hcurrent : ∀ n ∈ current, 0 ≤ n)
    (hn : n ∈ successors current keys) : 0 ≤ n := by
  obtain ⟨m, hm, k, -, hmax⟩ := mem_successors.mp hn
  obtain ⟨next, -, rfl⟩ := Option.map_eq_some_iff.mp hmax
  have hm := hcurrent m hm
  rw [Int32.le_iff_toInt_le] at hm ⊢
  rw [toInt_max]
  omega

-- An integer that is hidden in the other order changes nothing if it is negative or the greatest.
theorem mem_afterKey_of_perm (hkey : key.values.Perm key'.values)
    (hs : key = key' ∨ ¬Shadows options key)
    (hconcrete : (IndexClass.ofEntry options key).isConcrete) (hcurrent : ∀ n ∈ current, 0 ≤ n)
    (hn : (IndexClass.ofEntry options key).isInteger = false ∧ n ∈ current ∨
      n ∈ successors current (IndexClass.ofEntry options key).intKeys) :
    (IndexClass.ofEntry options key').isInteger = false ∧ n ∈ current ∨
      n ∈ successors current (IndexClass.ofEntry options key').intKeys := by
  rcases hs with rfl | hs
  · exact hn
  rcases hn with ⟨hint, hn⟩ | hn
  · exact .inl ⟨isInteger_of_perm hkey ▸ hint, hn⟩
  obtain ⟨m, hm, k, hk, hmax⟩ := mem_successors.mp hn
  obtain ⟨v, hv, hvk⟩ := IndexClass.exists_of_mem_keys (IndexClass.mem_intKeys.mp hk)
  rcases IndexClass.mem_intKeys_or (hkey.mem_iff.mp hv) hvk with hk' | htext
  · exact .inr (mem_successors.mpr ⟨m, hm, k, hk', hmax⟩)
  -- Now the text hides the integer in the other order. The key does not shadow, so the integer
  -- takes no index further, and the text keeps all of them.
  obtain ⟨w, hw, hwk⟩ := IndexClass.exists_of_mem_keys htext
  have hfree : ¬(0 ≤ k ∧ k ≠ Int32.maxValue) := fun hfree =>
    hs ⟨IndexClass.isConcrete_iff.mp hconcrete, k, hfree.1, hfree.2, ⟨v, hv, hvk⟩, w,
      hkey.mem_iff.mpr hw, hwk⟩
  obtain ⟨next, hnext, rfl⟩ := Option.map_eq_some_iff.mp hmax
  have hne : k ≠ Int32.maxValue := by
    rintro rfl
    cases hnext
  have hnegative : ¬0 ≤ k := fun hk => hfree ⟨hk, hne⟩
  have hstay : max m next = m := by
    have hm := hcurrent m hm
    rw [Int32.le_iff_toInt_le] at hm hnegative
    have hnext := toInt_of_int32?_eq_some hnext
    apply Int32.toInt_inj.mp
    rw [toInt_max]
    simp only [Int32.toInt_zero] at hm hnegative
    omega
  rw [hstay]
  exact .inl ⟨IndexClass.isInteger_eq_false_iff.mpr ⟨w, hw, by rw [hwk]; rfl⟩, hm⟩

theorem agrees_afterKey (h : counter.Agrees counter') (hkey : key.values.Perm key'.values)
    (hs : key = key' ∨ ¬Shadows options key) :
    (counter.afterKey (.ofEntry options key)).Agrees
      (counter'.afterKey (.ofEntry options key')) := by
  cases h with
  | none => exact .none
  | @some current current' h =>
    obtain ⟨hmem, hcurrent⟩ := h
    cases hconcrete : (IndexClass.ofEntry options key).isConcrete with
    | false =>
      rw [afterKey_unknown hconcrete, afterKey_unknown (isConcrete_of_perm hkey ▸ hconcrete)]
      exact .none
    | true =>
      have hconcrete' := isConcrete_of_perm hkey ▸ hconcrete
      obtain ⟨next, hnext, hn⟩ := exists_afterKey hconcrete current
      obtain ⟨next', hnext', hn'⟩ := exists_afterKey hconcrete' current'
      have hs' : key' = key ∨ ¬Shadows options key' :=
        hs.imp Eq.symm fun hs hshadows => hs (hshadows.of_perm hkey.symm)
      have hsuccessors : ∀ keys n, n ∈ successors current' keys ↔ n ∈ successors current keys := by
        simp only [mem_successors, hmem, implies_true]
      rw [hnext, hnext']
      refine .some ⟨fun n => ?_, fun n hmemn => ?_⟩
      · rw [hn, hn', ← hmem, hsuccessors]
        exact ⟨mem_afterKey_of_perm hkey hs hconcrete hcurrent,
          mem_afterKey_of_perm hkey.symm hs' hconcrete' hcurrent⟩
      · rcases (hn n).mp hmemn with ⟨-, hmemn⟩ | hmemn
        · exact hcurrent n hmemn
        · exact nonneg_of_mem_successors hcurrent hmemn

theorem agrees_afterItem (h : counter.Agrees counter') :
    counter.afterItem.Agrees counter'.afterItem := by
  cases h with
  | none => exact .none
  | @some current current' h =>
    obtain ⟨hmem, hcurrent⟩ := h
    refine .some ⟨fun n => ?_, fun n hn => ?_⟩
    · simp only [List.mem_filterMap, hmem]
    · obtain ⟨m, hm, hn⟩ := List.mem_filterMap.mp hn
      have hm := hcurrent m hm
      rw [Int32.le_iff_toInt_le] at hm ⊢
      rw [toInt_of_int32?_eq_some hn]
      simp only [Int32.toInt_zero] at hm ⊢
      omega

theorem agrees_foldl_after {items items' : List (Option Entry)} (hr : Reordered items items')
    (hs : ShadowsKept options items items') (h : counter.Agrees counter') :
    (items.foldl (after options) counter).Agrees (items'.foldl (after options) counter') := by
  induction hr generalizing counter counter' with
  | nil => exact h
  | @cons item item' items items' hitem _ ih =>
    have hrest : ShadowsKept options items items' := fun key key' hmem =>
      hs key key' (List.mem_cons_of_mem _ hmem)
    cases hitem with
    | some hkey => exact ih hrest (agrees_afterKey h hkey (hs _ _ List.mem_cons_self))
    | none => exact ih hrest (agrees_afterItem h)

-- Whether the indexes are known does not depend on what they are.

theorem isSome_afterKey (counter : Counter) (c : IndexClass) :
    (counter.afterKey c).isSome = (counter.isSome && c.isConcrete) := by
  cases hc : c.isConcrete with
  | false =>
    rw [afterKey_unknown hc, Bool.and_false]
    rfl
  | true =>
    cases counter with
    | none => rfl
    | some current =>
      obtain ⟨next, hnext, -⟩ := exists_afterKey hc current
      rw [hnext]
      rfl

theorem isSome_foldl_after {items items' : List (Option Entry)} (hr : Reordered items items')
    (h : counter.isSome = counter'.isSome) :
    (items.foldl (after options) counter).isSome =
      (items'.foldl (after options) counter').isSome := by
  induction hr generalizing counter counter' with
  | nil => exact h
  | cons hitem _ ih =>
    apply ih
    cases hitem with
    | some hkey => simp only [after, isSome_afterKey, h, isConcrete_of_perm hkey]
    | none => simpa only [after, afterItem, Option.isSome_map] using h

theorem agrees_selector_of_any (h : counter.isSome = counter'.isSome)
    (hany : counter.selector = .any ∨ counter'.selector = .any) :
    counter.selector.Agrees counter'.selector := by
  cases counter with
  | none =>
    cases counter' with
    | none => exact .any
    | some current' => cases h
  | some current =>
    cases counter' with
    | none => cases h
    | some current' => rcases hany with hany | hany <;> cases hany

end Counter

section Shadowing

variable {options : Options} {key : Entry} {v : Value} {k : Key} {n next : Int32}

-- The same values with this one in front.
def Entry.toFront (key : Entry) (v : Value) (hv : v ∈ key.values) : Entry where
  values := v :: key.values.erase v
  nonempty := List.cons_ne_nil _ _
  distinct := (List.perm_cons_erase hv).nodup_iff.mp key.distinct

theorem mem_keys_toFront (hv : v ∈ key.values) (hk : Candidate.ofValue options v = .key k) :
    k ∈ (IndexClass.ofEntry options (key.toFront v hv)).keys := by
  simp [IndexClass.ofEntry, IndexClass.ofCandidates, Entry.toFront, hk, Candidate.key?,
    List.eraseDupsBy_cons]

-- Either the integer or the text is found first.
theorem Shadows.exists_perm (h : Shadows options key) :
    ∃ (key' : Entry) (n : Int32), key.values.Perm key'.values ∧ 0 ≤ n ∧ n ≠ Int32.maxValue ∧
      ¬(n ∈ (IndexClass.ofEntry options key).intKeys ↔
        n ∈ (IndexClass.ofEntry options key').intKeys) := by
  obtain ⟨-, n, hn, hmax, ⟨v, hv, hvn⟩, w, hw, hwn⟩ := h
  by_cases hkey : n ∈ (IndexClass.ofEntry options key).intKeys
  · refine ⟨key.toFront w hw, n, List.perm_cons_erase hw, hn, hmax, fun hiff => ?_⟩
    have hint := IndexClass.mem_intKeys.mp (hiff.mp hkey)
    cases IndexClass.eq_of_name_eq hint (mem_keys_toFront hw hwn) rfl
  · refine ⟨key.toFront v hv, n, List.perm_cons_erase hv, hn, hmax, fun hiff => ?_⟩
    exact hkey (hiff.mpr (IndexClass.mem_intKeys.mpr (mem_keys_toFront hv hvn)))

-- The index behind an integer is among the indexes if and only if the integer is among the keys.
theorem exists_afterKey_initial (hconcrete : (IndexClass.ofEntry options key).isConcrete)
    (hn : 0 ≤ n) (hnext : int32? (n.toInt + 1) = some next) :
    ∃ current, Counter.initial.afterKey (.ofEntry options key) = some current ∧
      (next ∈ current ↔ n ∈ (IndexClass.ofEntry options key).intKeys) := by
  obtain ⟨current, hcurrent, hmem⟩ := Counter.exists_afterKey hconcrete [0]
  have hvalue := toInt_of_int32?_eq_some hnext
  rw [Int32.le_iff_toInt_le, Int32.toInt_zero] at hn
  refine ⟨current, hcurrent, ?_⟩
  simp only [hmem, Counter.mem_successors, List.mem_singleton, exists_eq_left]
  constructor
  · rintro (⟨-, rfl⟩ | ⟨k, hk, hmax⟩)
    · rw [Int32.toInt_zero] at hvalue
      omega
    · obtain ⟨m, hm, rfl⟩ := Option.map_eq_some_iff.mp hmax
      have hsucc := toInt_of_int32?_eq_some hm
      rw [toInt_max, Int32.toInt_zero] at hvalue
      obtain rfl : k = n := Int32.toInt_inj.mp (by omega)
      exact hk
  · intro hmem
    refine .inr ⟨n, hmem, Option.map_eq_some_iff.mpr ⟨next, hnext, Int32.toInt_inj.mp ?_⟩⟩
    rw [toInt_max, Int32.toInt_zero]
    omega

theorem mem_of_agrees_selector {current current' : List Int32}
    (h : (Counter.selector (some current)).Agrees (Counter.selector (some current'))) (n : Int32) :
    n ∈ current ↔ n ∈ current' := by
  have htext : ∀ current : List Int32,
      integerText n.toInt ∈ (current.map fun c => integerText c.toInt).eraseDups ↔ n ∈ current := by
    intro current
    rw [List.mem_eraseDups, List.mem_map]
    constructor
    · rintro ⟨m, hm, htext⟩
      exact integerText_inj htext ▸ hm
    · intro hn
      exact ⟨n, hn, rfl⟩
  cases h with
  | names h => rw [← htext, ← htext, h]

-- Such a key has an order that changes the index behind it.
theorem Shadows.exists_disagreement (h : Shadows options key) :
    ∃ key' : Entry, key.values.Perm key'.values ∧
      ¬((Counter.initial.afterKey (.ofEntry options key)).selector.Agrees
        (Counter.initial.afterKey (.ofEntry options key')).selector) := by
  obtain ⟨key', n, hkey, hn, hmax, hdiffer⟩ := h.exists_perm
  have hconcrete := IndexClass.isConcrete_iff.mpr h.1
  obtain ⟨next, hnext⟩ := exists_int32?_succ hmax
  obtain ⟨current, hcurrent, hmem⟩ := exists_afterKey_initial hconcrete hn hnext
  obtain ⟨current', hcurrent', hmem'⟩ :=
    exists_afterKey_initial (isConcrete_of_perm hkey ▸ hconcrete) hn hnext
  refine ⟨key', hkey, fun hagrees => hdiffer ?_⟩
  rw [hcurrent, hcurrent'] at hagrees
  rw [← hmem, ← hmem', mem_of_agrees_selector hagrees]

end Shadowing

section Items

variable {options : Options} {items items' : List (Option Entry)}

-- What two orders have in common at an item.
theorem agrees_itemSelectors (hr : Reordered items items') {i : Nat} {selector selector' : Selector}
    (hi : (itemSelectors options .initial items)[i]? = some selector)
    (hi' : (itemSelectors options .initial items')[i]? = some selector')
    (hcase : items[i]? ≠ some none ∨ selector = .any ∨ selector' = .any ∨
      ShadowsKept options (items.take i) (items'.take i)) :
    selector.Agrees selector' := by
  rw [getElem?_itemSelectors, Option.map_eq_some_iff] at hi hi'
  obtain ⟨item, hitem, rfl⟩ := hi
  obtain ⟨item', hitem', rfl⟩ := hi'
  obtain ⟨hlt, rfl⟩ := List.getElem?_eq_some_iff.mp hitem
  obtain ⟨hlt', rfl⟩ := List.getElem?_eq_some_iff.mp hitem'
  have hrel := (List.forall₂_iff_get.mp hr).2 i hlt hlt'
  have hfront : Reordered (items.take i) (items'.take i) := List.forall₂_take i hr
  simp only [List.get_eq_getElem] at hrel
  generalize items[i] = item at hitem hcase hrel
  generalize items'[i] = item' at hitem' hcase hrel
  cases hrel with
  | some hkey => exact agrees_selector hkey
  | none =>
    have hknown : ((items.take i).foldl (Counter.after options) .initial).isSome =
        ((items'.take i).foldl (Counter.after options) .initial).isSome :=
      Counter.isSome_foldl_after hfront rfl
    rcases hcase with hne | hany | hany | hs
    · exact absurd hitem hne
    · exact Counter.agrees_selector_of_any hknown (.inl hany)
    · exact Counter.agrees_selector_of_any hknown (.inr hany)
    · exact Counter.agrees_selector (Counter.agrees_foldl_after hfront hs Counter.agrees_initial)

theorem dataKeys_of_reordered (hr : Reordered items items') :
    DataKeys items ↔ DataKeys items' := by
  induction hr with
  | nil => rfl
  | cons hitem _ ih =>
    cases hitem with
    | some hkey => simp only [dataKeys_some_cons, hkey.mem_iff, ih]
    | none => simp only [dataKeys_none_cons, ih]

end Items

namespace Eval

variable {options : Options} {items items' : List (Option Entry)}

theorem literalKeys_ok_iff (state : State) :
    (∃ selectors, ((literalKeys items).run options state).1 = .ok selectors) ↔ DataKeys items := by
  constructor
  · rintro ⟨selectors, h⟩
    exact (run_literalKeys_eq_ok (Prod.ext h rfl)).1
  · intro h
    rw [literalKeys, run_itemKeys h]
    exact ⟨_, rfl⟩

-- Where the order of the values in the keys matters to an array literal. It is evaluated in both
-- orders or in none. An item that has a key, or gets any key, gets the same in both. So does an
-- item without a key, unless a key in front of it shadows and is in another order. Each key that
-- shadows has an order that changes the index of the item behind it.
theorem literalKeys_reordered (hr : Reordered items items') (state state' : State) :
    ((∃ selectors, ((literalKeys items).run options state).1 = .ok selectors) ↔ DataKeys items) ∧
      ((∃ selectors, ((literalKeys items').run options state').1 = .ok selectors) ↔
        DataKeys items) ∧
      (∀ selectors selectors', ((literalKeys items).run options state).1 = .ok selectors →
        ((literalKeys items').run options state').1 = .ok selectors' →
        selectors.length = selectors'.length ∧
        ∀ (i : Nat) selector selector', selectors[i]? = some selector →
          selectors'[i]? = some selector' →
          (items[i]? ≠ some none ∨ selector = .any ∨ selector' = .any ∨
            options.canonicalIntegerKeys ∨
            ShadowsKept options (items.take i) (items'.take i)) →
          selector.Agrees selector') ∧
      ∀ key, DataKeys [some key, none] → Shadows options key →
        ∃ key' : Entry, key.values.Perm key'.values ∧ ∃ selector selector' index index',
          ((literalKeys [some key, none]).run options state).1 = .ok [selector, index] ∧
          ((literalKeys [some key', none]).run options state').1 = .ok [selector', index'] ∧
          selector.Agrees selector' ∧ ¬index.Agrees index' := by
  refine ⟨literalKeys_ok_iff state,
    (literalKeys_ok_iff state').trans (dataKeys_of_reordered hr).symm, ?_, ?_⟩
  · intro selectors selectors' h h'
    obtain ⟨-, rfl, -⟩ := run_literalKeys_eq_ok (Prod.ext h rfl)
    obtain ⟨-, rfl, -⟩ := run_literalKeys_eq_ok (Prod.ext h' rfl)
    refine ⟨by simp [hr.length_eq], fun i selector selector' hi hi' hcase => ?_⟩
    refine agrees_itemSelectors hr hi hi' ?_
    rcases hcase with hkeyed | hany | hany | ho | hs
    · exact .inl hkeyed
    · exact .inr (.inl hany)
    · exact .inr (.inr (.inl hany))
    · exact .inr (.inr (.inr fun key key' _ => .inr (not_shadows ho)))
    · exact .inr (.inr (.inr hs))
  · intro key hdata hshadows
    obtain ⟨key', hkey, hdisagree⟩ := hshadows.exists_disagreement
    have hr : Reordered [some key, none] [some key', none] := .cons (.some hkey) (.cons .none .nil)
    have hdata' := (dataKeys_of_reordered hr).mp hdata
    have hagrees : (IndexClass.ofEntry options key).selector.Agrees
        (IndexClass.ofEntry options key').selector := agrees_selector hkey
    refine ⟨key', hkey, _, _, _, _, ?_, ?_, hagrees, hdisagree⟩
    · rw [literalKeys, run_itemKeys hdata]
      rfl
    · rw [literalKeys, run_itemKeys hdata']
      rfl

def textsStay : Options := { canonicalIntegerKeys := false }

-- An integer and the text of its digits.
def seven : Entry := .ofNonempty [.int 7, .str "7"] (by simp)

def smallFirst : List (Option Entry) :=
  [some (.ofNonempty [.int 5, .int 9, .array 3] (by simp)), none, some seven, none]

def smallLast : List (Option Entry) :=
  [some (.ofNonempty [.int 9, .array 3, .int 5] (by simp)), none, some seven, none]

-- Only the key that shadows has kept its order.
theorem literalKeys_reordered_smallLast :
    Reordered smallFirst smallLast ∧ Shadows textsStay seven ∧
      ((literalKeys smallFirst).run textsStay .initial).1 =
        .ok [.names ["5", "9"], .names ["0", "6", "10"], .names ["7"],
          .names ["1", "7", "11", "8"]] ∧
      ((literalKeys smallLast).run textsStay .initial).1 =
        .ok [.names ["9", "5"], .names ["0", "10", "6"], .names ["7"],
          .names ["1", "11", "7", "8"]] ∧
      (Selector.names ["1", "7", "11", "8"]).Agrees (.names ["1", "11", "7", "8"]) ∧
      ∃ key' : Entry, seven.values.Perm key'.values ∧ ∃ selector selector' index index',
        ((literalKeys [some seven, none]).run textsStay .initial).1 = .ok [selector, index] ∧
        ((literalKeys [some key', none]).run textsStay .initial).1 = .ok [selector', index'] ∧
        selector.Agrees selector' ∧ ¬index.Agrees index' := by
  have hr : Reordered smallFirst smallLast := by
    refine .cons (.some ?_) (.cons .none (.cons (.some (.refl _)) (.cons .none .nil)))
    decide +kernel
  have hshadows : Shadows textsStay seven := by
    refine ⟨by decide +kernel, 7, by decide, by decide, ⟨.int 7, ?_, rfl⟩, .str "7", ?_, ?_⟩ <;>
      decide +kernel
  have hfirst : ((literalKeys smallFirst).run textsStay .initial).1 =
      .ok [.names ["5", "9"], .names ["0", "6", "10"], .names ["7"],
        .names ["1", "7", "11", "8"]] := by
    decide +kernel
  have hlast : ((literalKeys smallLast).run textsStay .initial).1 =
      .ok [.names ["9", "5"], .names ["0", "10", "6"], .names ["7"],
        .names ["1", "11", "7", "8"]] := by
    decide +kernel
  obtain ⟨-, -, hagree, hdisagree⟩ := literalKeys_reordered hr .initial .initial
  refine ⟨hr, hshadows, hfirst, hlast, ?_, hdisagree seven ?_ hshadows⟩
  · refine (hagree _ _ hfirst hlast).2 3 _ _ rfl rfl (.inr (.inr (.inr (.inr ?_))))
    intro key key' hmem
    simp only [smallFirst, smallLast, List.take_succ_cons, List.take_zero, List.zip_cons_cons,
      List.zip_nil_left, List.mem_cons, List.not_mem_nil, or_false, Prod.mk.injEq,
      Option.some.injEq, reduceCtorEq, and_self, false_or] at hmem
    rcases hmem with ⟨rfl, rfl⟩ | ⟨rfl, rfl⟩
    · refine .inr ?_
      rintro ⟨-, n, -, -, -, v, hv, htext⟩
      simp only [Entry.ofNonempty, List.mem_eraseDups, List.mem_cons, List.not_mem_nil,
        or_false] at hv
      rcases hv with rfl | rfl | rfl <;> cases htext
    · exact .inl rfl
  · exact dataKeys_some_cons.mpr ⟨by decide +kernel, by simp [DataKeys]⟩

-- A text that is found first hides the integer, so the index behind it is lost.
theorem reordering_loses_index :
    Reordered [some (.ofNonempty [.str "5", .int 5] (by simp)), none]
        [some (.ofNonempty [.int 5, .str "5"] (by simp)), none] ∧
      ((literalKeys [some (.ofNonempty [.str "5", .int 5] (by simp)), none]).run textsStay
        .initial).1 = .ok [.names ["5"], .names ["0"]] ∧
      ((literalKeys [some (.ofNonempty [.int 5, .str "5"] (by simp)), none]).run textsStay
        .initial).1 = .ok [.names ["5"], .names ["0", "6"]] ∧
      ¬(Selector.names ["0"]).Agrees (.names ["0", "6"]) := by
  refine ⟨.cons (.some (by decide +kernel)) (.cons .none .nil), by decide +kernel,
    by decide +kernel, ?_⟩
  intro h
  cases h with
  | names h => exact absurd ((h "6").mpr (by simp)) (by simp)

end Eval

end AbsEval
