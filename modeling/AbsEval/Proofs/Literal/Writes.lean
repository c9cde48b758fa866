import AbsEval.Proofs.Literal.Known
import AbsEval.Proofs.Store.Assign

namespace AbsEval

namespace Members

variable {members : Members} {item : Selector × Entry} {name : String} {v : Value}

-- One item of a literal.
def writeItem (members : Members) (item : Selector × Entry) : Members :=
  members.write item.1 (item.1.keys.length == 1) item.2

theorem agrees_foldl_writeItem (items : List (Selector × Entry)) :
    Table.Agrees (items.foldl writeItem .empty) :=
  List.foldlRecOn items writeItem Table.agrees_empty fun _ h item _ =>
    agrees_write h item.1 _ item.2

-- The entry takes the place of what was at its only name. It is added to several names, and to all
-- that are there if its own is unknown.
theorem mem_valuesAt_writeItem : v ∈ (members.writeItem item).valuesAt name ↔
    if item.1 = .single name then v ∈ item.2.values
    else v ∈ members.valuesAt name ∨
      (name ∈ item.1.keys ∨ item.1 = .any ∧ name ∈ members.keys) ∧ v ∈ item.2.values := by
  obtain ⟨selector, entry⟩ := item
  cases selector with
  | any =>
    show v ∈ (members.write .any _ entry).valuesAt name ↔ _
    simp [mem_valuesAt_write_any, Selector.single, Selector.keys]
  | names keys =>
    by_cases hone : keys.length = 1
    · obtain ⟨key, rfl⟩ := List.length_eq_one_iff.mp hone
      show v ∈ valuesAt (members.write (.names [key]) true entry) name ↔ _
      rw [valuesAt_write_replace]
      by_cases h : name = key
      · simp [h, Selector.single]
      · simp [h, Ne.symm h, Selector.single, Selector.keys]
    · have hmerge :
          members.writeItem (.names keys, entry) = members.write (.names keys) false entry := by
        simp only [writeItem, Selector.keys, beq_eq_false_iff_ne.mpr hone]
      rw [hmerge, mem_valuesAt_write_merge, if_neg]
      · simp [Selector.keys]
      · rintro ⟨⟩
        exact hone rfl

end Members

section Literal

variable {options : Options} {items : List (Option Entry × Entry)} {item : Option Entry × Entry}
  {name : String} {v : Value} {i : Nat}

-- An item of a literal is written to a name.
def WrittenAt (options : Options) (keys : List (Option Entry)) (i : Nat) (name : String) : Prop :=
  NamesAt options keys i name ∨ OpenAt options keys i ∧ ∃ j < i, NamesAt options keys j name

-- It takes the place of what was there.
def ReplacedAt (options : Options) (keys : List (Option Entry)) (i : Nat) (name : String) : Prop :=
  ∀ other, NamesAt options keys i other ↔ other = name

theorem ReplacedAt.lt_length (h : ReplacedAt options (items.map Prod.fst) i name) :
    i < items.length := by
  simpa using ((h name).mpr rfl).lt_length

-- The members of the array after the first items.
def membersAfter (options : Options) (items : List (Option Entry × Entry)) (i : Nat) : Members :=
  (((itemSelectors options .initial (items.map Prod.fst)).zip (items.map Prod.snd)).take i).foldl
    Members.writeItem .empty

theorem exists_membersAfter_succ (options : Options) (hi : items[i]? = some item) :
    ∃ selector, (itemSelectors options .initial (items.map Prod.fst))[i]? = some selector ∧
      membersAfter options items (i + 1) =
        (membersAfter options items i).writeItem (selector, item.2) := by
  obtain ⟨selector, hselector⟩ : ∃ selector,
      (itemSelectors options .initial (items.map Prod.fst))[i]? = some selector := by
    rw [getElem?_itemSelectors, List.getElem?_map, hi]
    exact ⟨_, rfl⟩
  have hentry : (items.map Prod.snd)[i]? = some item.2 := by
    rw [List.getElem?_map, hi]
    rfl
  have hpair := List.getElem?_zip_eq_some (z := (selector, item.2)).mpr ⟨hselector, hentry⟩
  refine ⟨selector, hselector, ?_⟩
  unfold membersAfter
  rw [List.take_add_one, hpair, Option.toList_some, List.foldl_append]
  rfl

-- A name is there once an item had it.
theorem mem_keys_membersAfter (hi : i ≤ items.length) :
    name ∈ (membersAfter options items i).keys ↔
      ∃ j < i, NamesAt options (items.map Prod.fst) j name := by
  induction i with
  | zero => simp [membersAfter, Table.empty]
  | succ i ih =>
    obtain ⟨selector, hselector, hnext⟩ :=
      exists_membersAfter_succ options (List.getElem?_eq_getElem hi)
    obtain ⟨-, -, hnames⟩ := selector_spec hselector
    have hagrees : (membersAfter options items i).Agrees := Members.agrees_foldl_writeItem _
    rw [hnext, Members.writeItem, Members.mem_keys_write hagrees, hnames,
      ih (Nat.le_of_succ_le hi), Nat.exists_lt_succ_right, or_comm]

-- An item adds its entry, and what was there stays unless it is replaced.
theorem mem_valuesAt_membersAfter_succ (hi : items[i]? = some item) :
    v ∈ (membersAfter options items (i + 1)).valuesAt name ↔
      WrittenAt options (items.map Prod.fst) i name ∧ v ∈ item.2.values ∨
      ¬ReplacedAt options (items.map Prod.fst) i name ∧
        v ∈ (membersAfter options items i).valuesAt name := by
  obtain ⟨selector, hselector, hnext⟩ := exists_membersAfter_succ options hi
  obtain ⟨hany, -, hnames⟩ := selector_spec hselector
  have hle : i ≤ items.length := Nat.le_of_lt (List.getElem?_eq_some_iff.mp hi).1
  have hsingle : selector = .single name ↔ ReplacedAt options (items.map Prod.fst) i name :=
    selector_eq_single_iff hselector
  rw [hnext, Members.mem_valuesAt_writeItem, hnames, hany, mem_keys_membersAfter hle, ← WrittenAt]
  split
  · next hreplaced =>
    rw [hsingle] at hreplaced
    have hwritten : WrittenAt options (items.map Prod.fst) i name := .inl ((hreplaced name).mpr rfl)
    simp [hwritten, hreplaced]
  · next hreplaced =>
    rw [hsingle] at hreplaced
    rw [and_iff_right hreplaced, or_comm]

-- What is at a name was written there by an item, or is null, and was not replaced since.
theorem mem_valuesAt_membersAfter (hi : i ≤ items.length) :
    v ∈ (membersAfter options items i).valuesAt name ↔
      (v = .null ∧ ∀ j < i, ¬ReplacedAt options (items.map Prod.fst) j name) ∨
      ∃ j < i, (∃ item, items[j]? = some item ∧ v ∈ item.2.values) ∧
        WrittenAt options (items.map Prod.fst) j name ∧
        ∀ k < i, j < k → ¬ReplacedAt options (items.map Prod.fst) k name := by
  induction i with
  | zero => simp [membersAfter, Members.valuesAt, Table.get?_empty]
  | succ i ih =>
    have hitem := List.getElem?_eq_getElem hi
    rw [mem_valuesAt_membersAfter_succ hitem, ih (Nat.le_of_succ_le hi)]
    simp only [Nat.forall_lt_succ_right, Nat.exists_lt_succ_right]
    constructor
    · rintro (⟨hw, hv⟩ | ⟨hr, ⟨hnull, h⟩ | ⟨j, hj, hv, hw, h⟩⟩)
      · exact .inr (.inr ⟨⟨_, hitem, hv⟩, hw, fun k hk hlt => absurd hlt (Nat.lt_asymm hk),
          fun hlt => absurd hlt (Nat.lt_irrefl i)⟩)
      · exact .inl ⟨hnull, h, hr⟩
      · exact .inr (.inl ⟨j, hj, hv, hw, h, fun _ => hr⟩)
    · rintro (⟨hnull, h, hr⟩ | ⟨j, hj, hv, hw, h, hr⟩ | ⟨⟨item, hi, hv⟩, hw, -⟩)
      · exact .inr ⟨hr, .inl ⟨hnull, h⟩⟩
      · exact .inr ⟨hr hj, .inr ⟨j, hj, hv, hw, h⟩⟩
      · cases hitem.symm.trans hi
        exact .inl ⟨hw, hv⟩

end Literal

namespace Store

-- No other path is an alias of a member of the array.
def Unaliased (store : Store) (id : UInt32) : Prop :=
  ∀ pair ∈ store.aliases, pair.1.root ≠ .single (.array id)

variable {store : Store} {id : UInt32} {members : Members}

theorem write_index (hm : store.members.get? (.array id) = some members) (ha : store.Unaliased id)
    (selector : Selector) (entry : Entry) :
    store.write ((Path.ofValue (.array id)).member .index selector) entry =
      { store with
        members := store.members.set (.array id) (members.writeItem (selector, entry)) } := by
  rw [write_member rfl ha, hm]
  rfl

theorem get?_writeItems {items : List (Selector × Entry)}
    (hm : store.members.get? (.array id) = some members) (ha : store.Unaliased id) :
    (store.writeItems (.array id) items).members.get? (.array id) =
      some (items.foldl Members.writeItem members) := by
  induction items generalizing store members with
  | nil => exact hm
  | cons item items ih =>
    obtain ⟨selector, entry⟩ := item
    unfold writeItems at ih ⊢
    rw [List.foldl_cons, List.foldl_cons]
    dsimp only
    split
    · next h =>
      subst h
      exact ih hm ha
    · rw [write_index hm ha]
      exact ih (Map.get?_set_self _ _ _) ha

end Store

end AbsEval
