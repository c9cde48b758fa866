import AbsEval.Proofs.Literal.Keys

namespace AbsEval

namespace Counter

variable {options : Options} {counter : Counter} {current keys : List Int32} {c : IndexClass}
  {n : Int32}

theorem mem_successors : n ∈ successors current keys ↔
    ∃ m ∈ current, ∃ k ∈ keys, (int32? (k.toInt + 1)).map (max m) = some n := by
  simp only [successors, List.mem_eraseDups, List.mem_flatMap, List.mem_filterMap, List.mem_map,
    Option.map_eq_some_iff]
  constructor
  · rintro ⟨next, ⟨k, hk, hnext⟩, m, hm, rfl⟩
    exact ⟨m, hm, k, hk, next, hnext, rfl⟩
  · rintro ⟨m, hm, k, hk, next, hnext, rfl⟩
    exact ⟨next, ⟨k, hk, hnext⟩, m, hm, rfl⟩

theorem afterKey_unknown (h : c.isConcrete = false) : counter.afterKey c = none := by
  cases counter with
  | none => rfl
  | some current => simp [afterKey, h]

-- A known key takes each index somewhere, and leaves it where it is if the key may be no integer.
theorem exists_afterKey (h : c.isConcrete) (current : List Int32) :
    ∃ next, afterKey (some current) c = some next ∧
      ∀ n, n ∈ next ↔ (c.isInteger = false ∧ n ∈ current) ∨ n ∈ successors current c.intKeys := by
  simp only [afterKey, Option.bind_some, h, Bool.not_true, Bool.false_eq_true, ↓reduceIte]
  cases c.isInteger with
  | true => exact ⟨_, rfl, by simp⟩
  | false => exact ⟨_, rfl, by simp [List.mem_eraseDups]⟩

theorem mem_afterItem {next : List Int32} (h : afterItem (some current) = some next) :
    n ∈ next ↔ ∃ m ∈ current, int32? (m.toInt + 1) = some n := by
  obtain rfl := Option.some.inj h
  exact List.mem_filterMap

-- After an item, with or without a key.
def after (options : Options) (counter : Counter) : Option Entry → Counter
  | some key => counter.afterKey (.ofEntry options key)
  | none => counter.afterItem

@[simp] theorem after_none (options : Options) (item : Option Entry) :
    after options none item = none := by
  cases item <;> rfl

-- What an item gets.

def selectorOf (options : Options) (counter : Counter) : Option Entry → Selector
  | some key => (IndexClass.ofEntry options key).selector
  | none => counter.selector

def reportsOf (options : Options) (counter : Counter) : Option Entry → List Warning
  | some key => illegalReports options .illegalOffsetInLiteral key.values
  | none => if counter = some [] then [.illegalOffsetInLiteral] else []

end Counter

section Items

variable {options : Options} {counter : Counter} {items : List (Option Entry)}

@[simp] theorem length_itemSelectors :
    (itemSelectors options counter items).length = items.length := by
  induction items generalizing counter with
  | nil => rfl
  | cons item items ih => cases item <;> simp [itemSelectors, ih]

@[simp] theorem length_itemReports : (itemReports options counter items).length = items.length := by
  induction items generalizing counter with
  | nil => rfl
  | cons item items ih => cases item <;> simp [itemReports, ih]

-- Only the items in front matter to an item.

theorem getElem?_itemSelectors (i : Nat) : (itemSelectors options counter items)[i]? =
    items[i]?.map (((items.take i).foldl (Counter.after options) counter).selectorOf options) := by
  induction items generalizing counter i with
  | nil => rfl
  | cons item items ih =>
    cases i with
    | zero => cases item <;> rfl
    | succ i => cases item <;> exact ih i

theorem getElem?_itemReports (i : Nat) : (itemReports options counter items)[i]? =
    items[i]?.map (((items.take i).foldl (Counter.after options) counter).reportsOf options) := by
  induction items generalizing counter i with
  | nil => rfl
  | cons item items ih =>
    cases i with
    | zero => cases item <;> rfl
    | succ i => cases item <;> exact ih i

end Items

end AbsEval
