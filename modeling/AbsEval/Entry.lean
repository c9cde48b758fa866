import AbsEval.Value.Text

namespace AbsEval

-- Every value an expression may have: at least one, each once, in the order they were found.
structure Entry where
  values : List Value
  nonempty : values ≠ []
  distinct : values.Nodup
deriving DecidableEq

theorem nodup_eraseDups {α : Type} [BEq α] [LawfulBEq α] (xs : List α) : xs.eraseDups.Nodup := by
  induction hn : xs.length using Nat.strongRecOn generalizing xs with
  | ind n ih =>
    cases xs with
    | nil => simp
    | cons x xs =>
      rw [List.eraseDups_cons, List.nodup_cons]
      have hlength : (xs.filter fun y => !y == x).length < n := by
        rw [← hn]
        exact Nat.lt_succ_of_le (List.length_filter_le _ _)
      exact ⟨by simp [List.mem_eraseDups], ih _ hlength _ rfl⟩

theorem eraseDups_ne_nil {α : Type} [BEq α] {xs : List α} (h : xs ≠ []) : xs.eraseDups ≠ [] := by
  cases xs with
  | nil => exact absurd rfl h
  | cons x xs => simp [List.eraseDups_cons]

namespace Entry

-- The distinct values of a non-empty list, in the order of their first occurrence.
def ofNonempty (vs : List Value) (h : vs ≠ []) : Entry :=
  ⟨vs.eraseDups, eraseDups_ne_nil h, nodup_eraseDups vs⟩

def single (v : Value) : Entry :=
  ofNonempty [v] (by simp)

def ofList? (vs : List Value) : Option Entry :=
  if h : vs ≠ [] then some (ofNonempty vs h) else none

-- The values of both, those of the first in front.
def union (e f : Entry) : Entry :=
  ofNonempty (e.values ++ f.values) (by simp [e.nonempty])

def insert (e : Entry) (v : Value) : Entry :=
  e.union (single v)

-- Also tells whether the value is new.
def insertNew (e : Entry) (v : Value) : Bool × Entry :=
  (!e.values.contains v, e.insert v)

def count (e : Entry) : Nat :=
  e.values.length

def contains (e : Entry) (v : Value) : Bool :=
  e.values.contains v

-- The value, if there is no other.
def single? (e : Entry) : Option Value :=
  match e.values with
  | [v] => some v
  | _ => none

def display (e : Entry) : String :=
  "\x7b" ++ ", ".intercalate (e.values.map Value.display) ++ "\x7d"

end Entry

end AbsEval
