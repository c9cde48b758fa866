import AbsEval.Entry

namespace AbsEval

-- The members an access names: some of these keys, or any key at all.
inductive Selector where
  | names (keys : List String)
  | any
deriving DecidableEq

namespace Selector

def ofList (keys : List String) : Selector :=
  names keys.eraseDups

def single (key : String) : Selector :=
  names [key]

def keys : Selector → List String
  | names keys => keys
  | any => []

def isAny : Selector → Bool
  | names _ => false
  | any => true

-- Whether the access may reach a key.
def mayTouch (selector : Selector) (key : String) : Bool :=
  match selector with
  | names keys => key ∈ keys
  | any => true

def display : Selector → String
  | names keys => "[" ++ ", ".intercalate keys ++ "]"
  | any => "[?]"

end Selector

-- Arrays are accessed by index, objects by field.
inductive Access where
  | index
  | field
deriving DecidableEq

structure Step where
  access : Access
  selector : Selector
deriving DecidableEq

-- A place in a store: members of members, starting from given values.
structure Path where
  root : Entry
  steps : List Step
deriving DecidableEq

namespace Path

def ofEntry (root : Entry) : Path := ⟨root, []⟩

def ofValue (v : Value) : Path := ofEntry (Entry.single v)

def member (path : Path) (access : Access) (selector : Selector) : Path :=
  ⟨path.root, path.steps ++ [⟨access, selector⟩]⟩

-- The path without its last step, and that step.
def parent? (path : Path) : Option (Path × Step) :=
  path.steps.getLast?.map fun step => (⟨path.root, path.steps.dropLast⟩, step)

end Path

end AbsEval
