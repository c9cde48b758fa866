namespace AbsEval

-- A finite map. Where a key stands among the rows has no meaning.
structure Map (κ β : Type) where
  rows : List (κ × β)
deriving DecidableEq

namespace Map

variable {κ β : Type} [DecidableEq κ]

def empty : Map κ β := ⟨[]⟩

def keys (m : Map κ β) : List κ :=
  m.rows.map Prod.fst

def find? (key : κ) : List (κ × β) → Option β
  | [] => none
  | (k, b) :: rows => if k = key then some b else find? key rows

def put (key : κ) (b : β) : List (κ × β) → List (κ × β)
  | [] => [(key, b)]
  | (k, old) :: rows => if k = key then (k, b) :: rows else (k, old) :: put key b rows

def get? (m : Map κ β) (key : κ) : Option β :=
  find? key m.rows

def set (m : Map κ β) (key : κ) (b : β) : Map κ β :=
  ⟨put key b m.rows⟩

theorem get?_empty (key : κ) : (empty : Map κ β).get? key = none := rfl

theorem get?_set_self (m : Map κ β) (key : κ) (b : β) : (m.set key b).get? key = some b := by
  obtain ⟨rows⟩ := m
  show find? key (put key b rows) = some b
  induction rows with
  | nil => simp [put, find?]
  | cons row rows ih =>
    by_cases h : row.1 = key
    · simp [put, find?, h]
    · simpa [put, find?, h] using ih

theorem get?_set_of_ne (m : Map κ β) {key other : κ} (b : β) (h : other ≠ key) :
    (m.set key b).get? other = m.get? other := by
  obtain ⟨rows⟩ := m
  show find? other (put key b rows) = find? other rows
  induction rows with
  | nil => simp [put, find?, h.symm]
  | cons row rows ih =>
    by_cases hk : row.1 = key
    · have ho : row.1 ≠ other := fun he => h (he.symm.trans hk)
      simp [put, find?, hk, h.symm]
    · simp only [put, if_neg hk, find?]
      rw [ih]

end Map

end AbsEval
