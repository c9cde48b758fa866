import AbsEval.Store.Basic
import Mathlib.Data.List.Forall2

namespace AbsEval

-- What one run of a program has stored: a value at each key of each container, or nothing.
structure Heap where
  slots : Container → String → Option Value
  nextArray : UInt32
  nextObject : UInt32

-- How one run takes a step of a path: through which of the keys.
structure Pick where
  access : Access
  key : String

def Pick.Takes (pick : Pick) (step : Step) : Prop :=
  pick.access = step.access ∧ step.selector.mayTouch pick.key

namespace Heap

def empty : Heap := ⟨fun _ _ => none, 0, 0⟩

def valueAt (heap : Heap) (container : Container) (key : String) : Value :=
  (heap.slots container key).getD .null

def put (heap : Heap) (container : Container) (key : String) (x : Value) : Heap :=
  { heap with
    slots := fun c k => if c = container ∧ k = key then some x else heap.slots c k }

def clear (heap : Heap) (container : Container) : Heap :=
  { heap with slots := fun c k => if c = container then none else heap.slots c k }

def newArray (heap : Heap) : Heap :=
  { heap.clear (.array heap.nextArray) with nextArray := heap.nextArray + 1 }

def newObject (heap : Heap) : Heap :=
  { heap.clear (.object heap.nextObject) with nextObject := heap.nextObject + 1 }

-- Follows the picks from a value and stores `x` at the last. Picks that lead to no container store
-- nothing.
def assign (heap : Heap) (v : Value) : List Pick → Value → Heap
  | [], _ => heap
  | [pick], x => (pick.access.container? v).elim heap fun c => heap.put c pick.key x
  | pick :: next :: picks, x =>
    (pick.access.container? v).elim heap fun c =>
      heap.assign (heap.valueAt c pick.key) (next :: picks) x

end Heap

-- What changes a store.
inductive Command where
  | newArray
  | newObject (className : String)
  | write (path : Path) (entry : Entry)

-- The last step of a write names its keys. On the way there keys may be unknown.
def Command.NamesKeys : Command → Prop
  | write path _ => ∀ step ∈ path.steps.getLast?, step.selector.isAny = false
  | _ => True

namespace Store

def perform (store : Store) : Command → Store
  | .newArray => store.newArray.2
  | .newObject className => (store.newObject className).2
  | .write path entry => store.write path entry

def performAll (store : Store) (commands : List Command) : Store :=
  commands.foldl perform store

end Store

namespace Heap

-- The runs of a command: a write starts from one of the values at the root of its path, goes
-- through one key at each step, and stores one of the values of its entry.
inductive Performs : Heap → Command → Heap → Prop where
  | newArray (heap : Heap) : Performs heap .newArray heap.newArray
  | newObject (heap : Heap) (className : String) :
      Performs heap (.newObject className) heap.newObject
  | write {heap : Heap} {path : Path} {entry : Entry} {v x : Value} {picks : List Pick} :
      v ∈ path.root.values → List.Forall₂ Pick.Takes picks path.steps → x ∈ entry.values →
        Performs heap (.write path entry) (heap.assign v picks x)

inductive PerformsAll : Heap → List Command → Heap → Prop where
  | nil (heap : Heap) : PerformsAll heap [] heap
  | cons {heap next last : Heap} {command : Command} {commands : List Command} :
      Performs heap command next → PerformsAll next commands last →
        PerformsAll heap (command :: commands) last

variable {heap : Heap} {container other : Container} {key : String} {x : Value}

theorem assign_eq (heap : Heap) (v : Value) (picks : List Pick) (x : Value) :
    ∃ slots, heap.assign v picks x = { heap with slots } := by
  fun_induction assign heap v picks x with
  | case1 => exact ⟨heap.slots, rfl⟩
  | case2 v pick x =>
    cases pick.access.container? v with
    | none => exact ⟨heap.slots, rfl⟩
    | some c => exact ⟨_, rfl⟩
  | case3 v pick next picks x ih =>
    cases pick.access.container? v with
    | none => exact ⟨heap.slots, rfl⟩
    | some c => exact ih c

theorem valueAt_put (name : String) :
    (heap.put other name x).valueAt container key =
      if container = other ∧ key = name then x else heap.valueAt container key := by
  simp only [valueAt, put]
  split <;> rfl

theorem valueAt_clear :
    (heap.clear other).valueAt container key =
      if container = other then .null else heap.valueAt container key := by
  simp only [valueAt, clear]
  split <;> rfl

end Heap

end AbsEval
