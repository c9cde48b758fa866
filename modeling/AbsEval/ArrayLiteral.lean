import AbsEval.Index

namespace AbsEval

-- The indexes that the next item without a key may get. Unknown once an unknown key was given.
abbrev Counter := Option (List Int32)

namespace Counter

def initial : Counter := some [0]

-- The counter after integer keys: right behind the key, unless it is there already.
def successors (current keys : List Int32) : List Int32 :=
  ((keys.filterMap fun key => int32? (key.toInt + 1)).flatMap fun next =>
    current.map fun c => max c next).eraseDups

-- After an item with a key. A key that may be no integer may leave the counter where it is.
def afterKey (counter : Counter) (c : IndexClass) : Counter :=
  counter.bind fun current =>
    if !c.isConcrete then none
    else if c.isInteger then some (successors current c.intKeys)
    else some (current ++ successors current c.intKeys).eraseDups

-- After an item without a key. Behind the greatest index there is none.
def afterItem (counter : Counter) : Counter :=
  counter.map fun current => current.filterMap fun c => int32? (c.toInt + 1)

def selector : Counter → Selector
  | none => .any
  | some current => .ofList (current.map fun c => integerText c.toInt)

end Counter

namespace Eval

-- The keys of the items of an array literal, given the keys that are written.
def itemKeys (counter : Counter) : List (Option Entry) → Eval (List Selector)
  | [] => pure []
  | some key :: items => do
    let c ← classify .illegalOffsetInLiteral key
    let keys ← itemKeys (counter.afterKey c) items
    pure (c.selector :: keys)
  | none :: items => do
    if counter = some [] then warn .illegalOffsetInLiteral
    let keys ← itemKeys counter.afterItem items
    pure (counter.selector :: keys)

def literalKeys (items : List (Option Entry)) : Eval (List Selector) :=
  itemKeys .initial items

end Eval

-- Writes items into an array. An item without possible key is left out.
def Store.writeItems (store : Store) (array : Value) (items : List (Selector × Entry)) : Store :=
  items.foldl
    (fun s (selector, entry) =>
      if selector = .names [] then s
      else s.write ((Path.ofValue array).member .index selector) entry)
    store

-- A new array with these items. All keys are found before the array is made.
def Eval.arrayLiteral (items : List (Option Entry × Entry)) : Eval Value := do
  let keys ← literalKeys (items.map Prod.fst)
  update fun store =>
    let (array, fresh) := store.newArray
    (array, fresh.writeItems array (keys.zip (items.map Prod.snd)))

end AbsEval
