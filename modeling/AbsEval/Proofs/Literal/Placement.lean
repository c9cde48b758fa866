import AbsEval.ArrayLiteral
import AbsEval.Value.Meaning
import Mathlib.Data.List.Forall2
import Mathlib.Data.List.Induction

namespace AbsEval

-- What becomes of an item of an array literal: the key it is stored at, none if it is left out, and
-- its value.
structure Placement where
  key : Option Key
  value : Value

def Placement.name? (placement : Placement) : Option String :=
  placement.key.map Key.name

-- The keys that a candidate may come to. One that is illegal comes to none.
inductive Candidate.Resolves : Candidate → Option Key → Prop where
  | key (k : Key) : Resolves (.key k) (some k)
  | unknown (integer maybeIllegal : Bool) (n : Int32) :
      Resolves (.unknown integer maybeIllegal) (some (.int n))
  | illegal : Resolves .illegal none

-- The next free index after an item. Behind the greatest there is none.
def nextIndex (next : Option Int32) : Option Key → Option Int32
  | some (.int n) => next.bind fun current => (int32? (n.toInt + 1)).map (max current)
  | _ => next

@[simp] theorem nextIndex_none (key : Option Key) : nextIndex none key = none := by
  rcases key with _ | _ | _ <;> rfl

-- The runs of an array literal from a next free index on: a key is one of the values that its entry
-- stands for, an item without a key takes the next free index.
inductive Places (options : Options) :
    Option Int32 → List (Option Entry × Entry) → List Placement → Prop where
  | nil (next : Option Int32) : Places options next [] []
  | keyed {next : Option Int32} {keys entry : Entry} {items : List (Option Entry × Entry)}
      {run : List Placement} {v c x : Value} {key : Option Key} :
      v ∈ keys.values → v.Describes c → (Candidate.ofValue options c).Resolves key →
        x ∈ entry.values → Places options (nextIndex next key) items run →
          Places options next ((some keys, entry) :: items) (⟨key, x⟩ :: run)
  | unkeyed {next : Option Int32} {entry : Entry} {items : List (Option Entry × Entry)}
      {run : List Placement} {x : Value} :
      x ∈ entry.values → Places options (nextIndex next (next.map .int)) items run →
        Places options next ((none, entry) :: items) (⟨next.map .int, x⟩ :: run)

-- What a run leaves at a name.
def contents (run : List Placement) (name : String) : Value :=
  run.foldl (fun v placement => if placement.name? = some name then placement.value else v) .null

def GoesTo (run : List Placement) (i : Nat) (name : String) : Prop :=
  ∃ placement, run[i]? = some placement ∧ placement.name? = some name

section Run

variable {run : List Placement} {placement : Placement} {name : String} {i : Nat}

theorem contents_concat : contents (run ++ [placement]) name =
    if placement.name? = some name then placement.value else contents run name := by
  simp [contents, List.foldl_append]

theorem goesTo_concat : GoesTo (run ++ [placement]) i name ↔
    GoesTo run i name ∨ i = run.length ∧ placement.name? = some name := by
  unfold GoesTo
  rcases Nat.lt_trichotomy i run.length with hi | rfl | hi
  · simp [List.getElem?_append_left hi, Nat.ne_of_lt hi]
  · simp
  · have hne : i ≠ run.length := Nat.ne_of_gt hi
    rw [List.getElem?_eq_none (by simp; omega), List.getElem?_eq_none (Nat.le_of_lt hi)]
    simp [hne]

-- The last item that goes to a name settles what is there.
theorem contents_cases (run : List Placement) (name : String) :
    ((∀ i, ¬GoesTo run i name) ∧ contents run name = .null) ∨
      ∃ i placement, run[i]? = some placement ∧ placement.name? = some name ∧
        (∀ j, i < j → ¬GoesTo run j name) ∧ contents run name = placement.value := by
  induction run using List.reverseRecOn with
  | nil => exact .inl ⟨by simp [GoesTo], rfl⟩
  | append_singleton run last ih =>
    rw [contents_concat]
    by_cases hname : last.name? = some name
    · refine .inr ⟨run.length, last, by simp, hname, fun j hj => ?_, if_pos hname⟩
      rintro ⟨placement, hplace, -⟩
      have hlt := (List.getElem?_eq_some_iff.mp hplace).1
      rw [List.length_append, List.length_singleton] at hlt
      omega
    · simp only [goesTo_concat, hname, and_false, or_false, if_neg, not_false_eq_true]
      rcases ih with h | ⟨i, placement, hi, h⟩
      · exact .inl h
      · have hlt := (List.getElem?_eq_some_iff.mp hi).1
        exact .inr ⟨i, placement, (List.getElem?_append_left hlt).trans hi, h⟩

theorem contents_of_last (hi : run[i]? = some placement) (hname : placement.name? = some name)
    (hlast : ∀ j, i < j → ¬GoesTo run j name) : contents run name = placement.value := by
  rcases contents_cases run name with ⟨hnone, -⟩ | ⟨j, last, hj, hname', hlast', hcontents⟩
  · exact absurd ⟨placement, hi, hname⟩ (hnone i)
  · rcases Nat.lt_trichotomy i j with hlt | rfl | hlt
    · exact absurd ⟨last, hj, hname'⟩ (hlast j hlt)
    · cases hi.symm.trans hj
      exact hcontents
    · exact absurd ⟨placement, hi, hname⟩ (hlast' i hlt)

theorem contents_of_none (h : ∀ i, ¬GoesTo run i name) : contents run name = .null := by
  rcases contents_cases run name with ⟨-, hcontents⟩ | ⟨i, placement, hi, hname, -⟩
  · exact hcontents
  · exact absurd ⟨placement, hi, hname⟩ (h i)

end Run

section Places

variable {options : Options} {next : Option Int32} {items : List (Option Entry × Entry)}
  {run : List Placement}

theorem Places.length_eq (h : Places options next items run) : run.length = items.length := by
  induction h with
  | nil => rfl
  | keyed _ _ _ _ _ ih => simp [ih]
  | unkeyed _ _ ih => simp [ih]

-- The next free index behind some items of a run.
def freeIndex (next : Option Int32) (run : List Placement) : Option Int32 :=
  run.foldl (fun next placement => nextIndex next placement.key) next

-- What becomes of one item.
structure Placed (options : Options) (index : Option Int32) (item : Option Entry × Entry)
    (placement : Placement) : Prop where
  value : placement.value ∈ item.2.values
  key : ∀ key, item.1 = some key → ∃ v ∈ key.values, ∃ c, v.Describes c ∧
    (Candidate.ofValue options c).Resolves placement.key
  index : item.1 = none → placement.key = index.map .int

theorem Places.placed (h : Places options next items run) {i : Nat} {item : Option Entry × Entry}
    {placement : Placement} (hi : items[i]? = some item) (hi' : run[i]? = some placement) :
    Placed options (freeIndex next (run.take i)) item placement := by
  induction h generalizing i with
  | nil => cases hi
  | keyed hv hc hk hx _ ih =>
    cases i with
    | zero =>
      cases hi
      cases hi'
      refine ⟨hx, fun key hkey => ?_, fun hnone => by cases hnone⟩
      cases hkey
      exact ⟨_, hv, _, hc, hk⟩
    | succ i => exact ih hi hi'
  | unkeyed hx _ ih =>
    cases i with
    | zero =>
      cases hi
      cases hi'
      exact ⟨hx, fun key hkey => (by cases hkey), fun _ => rfl⟩
    | succ i => exact ih hi hi'

theorem Places.exists_placed (h : Places options next items run) {i : Nat} {placement : Placement}
    (hi : run[i]? = some placement) :
    ∃ item, items[i]? = some item ∧ (items.map Prod.fst)[i]? = some item.1 ∧
      Placed options (freeIndex next (run.take i)) item placement := by
  have hlt : i < items.length := h.length_eq ▸ (List.getElem?_eq_some_iff.mp hi).1
  have hitem := List.getElem?_eq_getElem hlt
  exact ⟨_, hitem, by rw [List.getElem?_map, hitem]; rfl, h.placed hitem hi⟩

-- A run does not depend on what is stored.
theorem Places.mapIdx (h : Places options next items run) (f : Nat → Value) :
    Places options next (items.mapIdx fun i item => (item.1, .single (f i)))
      (run.mapIdx fun i placement => ⟨placement.key, f i⟩) := by
  induction h generalizing f with
  | nil => exact .nil _
  | keyed hv hc hk _ _ ih =>
    rw [List.mapIdx_cons, List.mapIdx_cons]
    exact .keyed hv hc hk (List.mem_singleton_self _) (ih fun i => f (i + 1))
  | unkeyed _ _ ih =>
    rw [List.mapIdx_cons, List.mapIdx_cons]
    exact .unkeyed (List.mem_singleton_self _) (ih fun i => f (i + 1))

end Places

end AbsEval
