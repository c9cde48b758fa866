import AbsEval.Store.Path
import AbsEval.Table

namespace AbsEval

-- The members of one array or object, in the order in which their keys came.
abbrev Members := Table String Entry

namespace Members

-- Adds possible values to a member. A member that was not there may still be absent.
def merge (members : Members) (key : String) (entry : Entry) : Members :=
  match members.get? key with
  | some old => members.replace key (old.union entry)
  | none => members.set key (entry.insert .null)

-- The values of the members an access may reach.
def read (members : Members) : Selector → List Value
  | .names keys => keys.flatMap fun key => (members.get? key).elim [.null] Entry.values
  | .any => members.rows.flatMap (fun row => row.2.values) ++ [.null]

-- Puts an entry at every member an access may reach, in place of what was there or beside it. An
-- unknown key may be any that is present.
def write (members : Members) (selector : Selector) (replaces : Bool) (entry : Entry) : Members :=
  match selector with
  | .names keys =>
    keys.foldl (fun m key => if replaces then m.set key entry else m.merge key entry) members
  | .any => members.keys.foldl (fun m key => m.merge key entry) members

def hasAny (members : Members) : Selector → Bool
  | .names keys => keys.any fun key => (members.get? key).isSome
  | .any => !members.keys.isEmpty

end Members

-- The identities that have members.
inductive Container where
  | array (id : UInt32)
  | object (id : UInt32)
deriving DecidableEq

-- The container that an access to a value goes to.
def Access.container? : Access → Value → Option Container
  | .index, .array id => some (.array id)
  | .field, .object id _ => some (.object id)
  | _, _ => none

-- The members of all containers, the next free identities, and pairs of paths such that what is
-- written to the first is written to the second too.
structure Store where
  members : Map Container Members
  nextArray : UInt32
  nextObject : UInt32
  nextResource : UInt32
  aliases : List (Path × Path)
deriving DecidableEq

namespace Store

def empty : Store := ⟨.empty, 0, 0, 0, []⟩

def newArray (store : Store) : Value × Store :=
  (.array store.nextArray,
    { store with
      members := store.members.set (.array store.nextArray) .empty
      nextArray := store.nextArray + 1 })

def newObject (store : Store) (className : String) : Value × Store :=
  (.object store.nextObject className,
    { store with
      members := store.members.set (.object store.nextObject) .empty
      nextObject := store.nextObject + 1 })

def newResource (store : Store) : Value × Store :=
  (.resource store.nextResource, { store with nextResource := store.nextResource + 1 })

-- What an access to one value may find. An offset into a string is a string, and nothing is known
-- of the members of an unknown array or object.
def readMember (store : Store) (step : Step) (v : Value) : List Value :=
  match step.access.container? v with
  | some container =>
    match store.members.get? container with
    | some members => members.read step.selector
    | none => [.null]
  | none =>
    match step.access, v with
    | .index, .str _ => [.any .string]
    | .index, .any .string => [.any .string]
    | .index, .any kind => if .array ∈ kind.families then [.any .value] else [.null]
    | .field, .any kind => if .object ∈ kind.families then [.any .value] else [.null]
    | _, _ => [.null]

def readStep (store : Store) (base : Entry) (step : Step) : Entry :=
  (Entry.ofList? (base.values.flatMap (store.readMember step))).getD (Entry.single .null)

-- Every value that may be found at a path.
def read (store : Store) (path : Path) : Entry :=
  path.steps.foldl store.readStep path.root

-- The containers whose members the last step of a path may reach.
structure Target where
  containers : List Container
  selector : Selector
  -- The path leads to one container and one key, so a write replaces what is stored.
  replaces : Bool

def target? (store : Store) (path : Path) : Option Target :=
  path.parent?.map fun (parent, step) =>
    let base := store.read parent
    let containers := base.values.filterMap step.access.container?
    { containers
      selector := step.selector
      replaces := step.selector.keys.length == 1 && base.count == 1 && containers.length == 1 }

-- Writes at a path and nowhere else. There is nothing to write to without a step.
def assign (store : Store) (path : Path) (entry : Entry) : Store :=
  match store.target? path with
  | none => store
  | some target =>
    { store with
      members := target.containers.foldl
        (fun all container => all.set container
          (((all.get? container).getD .empty).write target.selector target.replaces entry))
        store.members }

-- Writes at a path and at its aliases.
def write (store : Store) (path : Path) (entry : Entry) : Store :=
  ((store.aliases.filter fun pair => pair.1 = path).map Prod.snd).foldl
    (fun s other => s.assign other entry) (store.assign path entry)

-- Makes a path hold what its new aliases hold and records them in both directions.
def addAliases (store : Store) (path : Path) (others : List Path) : Store :=
  let found := others.flatMap fun other => (store.read other).values
  let store := (Entry.ofList? found).elim store (store.assign path)
  let pairs := others.flatMap fun other => [(path, other), (other, path)]
  { store with
    aliases := pairs.foldl (fun known pair => if pair ∈ known then known else known ++ [pair])
      store.aliases }

-- Whether a member named by the path is present. A path without steps names a value, not a member.
def isDefined (store : Store) (path : Path) : Bool :=
  match store.target? path with
  | none => true
  | some target => target.containers.any fun container =>
    (store.members.get? container).any fun members => members.hasAny target.selector

-- The keys of the containers a path leads to.
def keys (store : Store) (access : Access) (path : Path) : List String :=
  ((store.read path).values.flatMap fun v =>
    ((access.container? v).bind store.members.get?).elim [] Table.keys).eraseDups

end Store

end AbsEval
