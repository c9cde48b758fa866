import AbsEval.Report
import AbsEval.Store.Basic

namespace AbsEval

structure Options where
  -- Texts that look like an integer are integer keys.
  canonicalIntegerKeys : Bool := true
  -- Identity of floats is reported.
  warnFloatIdentity : Bool := true
  -- The sum of two known arrays is built, member by member.
  materializeArrayUnion : Bool := true
deriving DecidableEq

-- What evaluation reads and changes.
structure State where
  store : Store
  warnings : List Warning
deriving DecidableEq

def State.initial : State := ⟨.empty, []⟩

-- An evaluation under given options. What it changed before it failed stays changed.
abbrev Eval := ReaderT Options (ExceptT Fault (StateM State))

namespace Eval

variable {α : Type}

def run (x : Eval α) (options : Options) (state : State) : Except Fault α × State :=
  x options state

def warn (warning : Warning) : Eval Unit :=
  modify fun state => { state with warnings := state.warnings ++ [warning] }

-- Takes a result and passes its warnings on.
def note (x : Noted α) : Eval α := do
  modify fun state => { state with warnings := state.warnings ++ x.warnings }
  pure x.result

def getStore : Eval Store := do
  pure (← get).store

-- Runs an operation that changes the store.
def update (f : Store → α × Store) : Eval α := do
  let state ← get
  let (result, store) := f state.store
  set { state with store := store }
  pure result

def ofExcept : Except Fault α → Eval α
  | .ok result => pure result
  | .error fault => throw fault

def expectData (v : Value) : Eval Unit :=
  ofExcept (v.whenData ())

-- An entry of results.
def collect (results : List Value) : Eval Entry :=
  match Entry.ofList? results with
  | some e => pure e
  | none => throw .noValue

def forEntry (e : Entry) (f : Value → Eval Value) : Eval Entry := do
  collect (← e.values.mapM f)

end Eval

end AbsEval
