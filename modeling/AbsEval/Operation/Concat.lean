import AbsEval.Conversion.Scalar

namespace AbsEval

namespace Value

-- A value as a text value.
def ofText? (text : Option String) : Value :=
  text.elim (any .string) str

def asText (v : Value) : Except Fault Value :=
  v.toText.map ofText?

def concat (left right : Value) : Except Fault Value := do
  let l ← left.toText
  let r ← right.toText
  pure (ofText? (do pure ((← l) ++ (← r))))

end Value

-- The texts that the values of an entry become.
structure Texts where
  known : List String
  hasUnknown : Bool

namespace Texts

def ofList (texts : List (Option String)) : Texts :=
  ⟨(texts.filterMap id).eraseDups, texts.any Option.isNone⟩

def ofEntry (e : Entry) : Except Fault Texts :=
  (e.values.mapM Value.toText).map ofList

def toValues (texts : Texts) : List Value :=
  texts.known.map Value.str ++ if texts.hasUnknown then [.any .string] else []

-- Every text of the one followed by every text of the other.
def append (left right : Texts) : Texts :=
  ⟨left.known.flatMap fun l => right.known.map (l ++ ·), left.hasUnknown || right.hasUnknown⟩

end Texts

end AbsEval
