import AbsEval.Map

namespace AbsEval

-- A finite map that keeps its keys twice: in the order in which they came, and with what is found
-- at them.
structure Table (κ β : Type) where
  keys : List κ
  values : Map κ β
deriving DecidableEq

namespace Table

variable {κ β : Type} [DecidableEq κ]

def empty : Table κ β := ⟨[], .empty⟩

def get? (t : Table κ β) (key : κ) : Option β :=
  t.values.get? key

-- Stores at a key, which comes last if nothing is found at it yet.
def set (t : Table κ β) (key : κ) (b : β) : Table κ β where
  keys := if (t.get? key).isSome then t.keys else t.keys ++ [key]
  values := t.values.set key b

-- Stores at a key at which something is found already.
def replace (t : Table κ β) (key : κ) (b : β) : Table κ β :=
  { t with values := t.values.set key b }

-- What is found going through the keys in order.
def rows (t : Table κ β) : List (κ × β) :=
  t.keys.filterMap fun key => (t.get? key).map fun b => (key, b)

theorem get?_empty (key : κ) : (empty : Table κ β).get? key = none := rfl

theorem get?_set_self (t : Table κ β) (key : κ) (b : β) : (t.set key b).get? key = some b :=
  t.values.get?_set_self key b

theorem get?_set_of_ne (t : Table κ β) {key other : κ} (b : β) (h : other ≠ key) :
    (t.set key b).get? other = t.get? other :=
  t.values.get?_set_of_ne b h

end Table

end AbsEval
