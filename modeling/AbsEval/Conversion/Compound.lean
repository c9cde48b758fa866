import AbsEval.Store.Basic

namespace AbsEval.Store

-- Copies members one by one, each read from the store that the earlier copies left.
def copyMembers (store : Store) (source : Value) (sourceAccess : Access) (keys : List String)
    (target : Value) (targetAccess : Access) : Store :=
  keys.foldl
    (fun s key =>
      s.write ((Path.ofValue target).member targetAccess (.single key))
        (s.read ((Path.ofValue source).member sourceAccess (.single key))))
    store

def standardClass : String := "stdClass"

-- The field that holds a scalar made an object.
def scalarField : String := "scalar"

-- A value as an object: the members of an array become fields, a scalar becomes the only field.
def toObject (store : Store) (v : Value) : Value × Store :=
  match v with
  | .object .. => (v, store)
  | .array _ =>
    let (object, fresh) := store.newObject standardClass
    (object, fresh.copyMembers v .index (fresh.keys .index (Path.ofValue v)) object .field)
  | .null => store.newObject standardClass
  | .bool _ | .int _ | .long _ | .float _ | .str _ | .resource _ =>
    let (object, fresh) := store.newObject standardClass
    (object, fresh.write ((Path.ofValue object).member .field (.single scalarField)) (.single v))
  | .intRange _ | .longRange _ | .floatRange _ | .any _ | .marker _ => (.any .object, store)

-- A value as an array: the fields of an object become members, a scalar becomes the only member.
def toArray (store : Store) (v : Value) : Value × Store :=
  match v with
  | .array _ => (v, store)
  | .object .. =>
    let (array, fresh) := store.newArray
    (array, fresh.copyMembers v .field (fresh.keys .field (Path.ofValue v)) array .index)
  | .null => store.newArray
  | .bool _ | .int _ | .long _ | .float _ | .str _ | .resource _ =>
    let (array, fresh) := store.newArray
    (array, fresh.write ((Path.ofValue array).member .index (.single "0")) (.single v))
  | .intRange _ | .longRange _ | .floatRange _ | .any _ | .marker _ => (.any .array, store)

-- A new object of the same class with the same fields.
def cloneObject (store : Store) (id : UInt32) (className : String) : Value × Store :=
  let source := Value.object id className
  let (copy, fresh) := store.newObject className
  (copy, fresh.copyMembers source .field (fresh.keys .field (Path.ofValue source)) copy .field)

-- A new array with the members of the first and those of the second that the first lacks.
def unionArrays (store : Store) (left right : Value) : Value × Store :=
  let (union, fresh) := store.newArray
  let leftKeys := fresh.keys .index (Path.ofValue left)
  let rightKeys := (fresh.keys .index (Path.ofValue right)).filter fun key => key ∉ leftKeys
  (union, (fresh.copyMembers left .index leftKeys union .index).copyMembers
    right .index rightKeys union .index)

end AbsEval.Store
