import AbsEval.Double.Interchange
import AbsEval.Interval
import AbsEval.Value.Kind

namespace AbsEval

-- Program entities that travel with values and are no data.
inductive Marker where
  | function (name : String)
  | lambda (index : UInt32)
  | type (className : String)
  | special (tag : String)
deriving DecidableEq

-- What is known of one value of the analysed program: the value itself, bounds on a number, or only
-- its kind. Arrays, objects and resources are identities, their members are in a store.
inductive Value where
  | null
  | bool (b : Bool)
  | int (n : Int32)
  | long (n : Int64)
  | float (x : Double)
  | str (text : String)
  | array (id : UInt32)
  | object (id : UInt32) (className : String)
  | resource (id : UInt32)
  | intRange (range : Interval Int32)
  | longRange (range : Interval Int64)
  | floatRange (range : Interval Double)
  | any (kind : Kind)
  | marker (m : Marker)

namespace Value

-- Values are compared part by part and floats by their encoding, so NaN is the same as itself and
-- the zeros are apart.
def same : Value → Value → Bool
  | bool a, bool b => a == b
  | int a, int b => a == b
  | long a, long b => a == b
  | float x, float y => x.toBits == y.toBits
  | str a, str b => a == b
  | marker (.function a), marker (.function b) => a == b
  | marker (.special a), marker (.special b) => a == b
  | array a, array b => a == b
  | object a className, object b className' => a == b && className == className'
  | resource a, resource b => a == b
  | null, null => true
  | intRange i, intRange j => i == j
  | longRange i, longRange j => i == j
  | floatRange i, floatRange j =>
    i.start.toBits == j.start.toBits && i.stop.toBits == j.stop.toBits
  | any a, any b => a == b
  | marker (.lambda a), marker (.lambda b) => a == b
  | marker (.type a), marker (.type b) => a == b
  | _, _ => false

theorem same_self (v : Value) : v.same v := by
  cases v with
  | null => rfl
  | bool | int | long | float | str | array | resource | intRange | longRange | any =>
    exact beq_self_eq_true _
  | object | floatRange => exact Bool.and_eq_true_iff.mpr ⟨beq_self_eq_true _, beq_self_eq_true _⟩
  | marker m => cases m <;> exact beq_self_eq_true _

theorem eq_of_same {v w : Value} (h : v.same w) : v = w := by
  cases v with
  | null =>
    cases w with
    | null => rfl
    | _ => cases h
  | bool a =>
    cases w with
    | bool b => exact congrArg bool (eq_of_beq h)
    | _ => cases h
  | int a =>
    cases w with
    | int b => exact congrArg int (eq_of_beq h)
    | _ => cases h
  | long a =>
    cases w with
    | long b => exact congrArg long (eq_of_beq h)
    | _ => cases h
  | float x =>
    cases w with
    | float y => exact congrArg float (Double.toBits_inj.mp (eq_of_beq h))
    | _ => cases h
  | str a =>
    cases w with
    | str b => exact congrArg str (eq_of_beq h)
    | _ => cases h
  | array a =>
    cases w with
    | array b => exact congrArg array (eq_of_beq h)
    | _ => cases h
  | object a className =>
    cases w with
    | object b className' =>
      obtain ⟨hid, hclass⟩ := Bool.and_eq_true_iff.mp h
      rw [eq_of_beq hid, eq_of_beq hclass]
    | _ => cases h
  | resource a =>
    cases w with
    | resource b => exact congrArg resource (eq_of_beq h)
    | _ => cases h
  | intRange i =>
    cases w with
    | intRange j => exact congrArg intRange (eq_of_beq h)
    | _ => cases h
  | longRange i =>
    cases w with
    | longRange j => exact congrArg longRange (eq_of_beq h)
    | _ => cases h
  | floatRange i =>
    cases w with
    | floatRange j =>
      obtain ⟨hstart, hstop⟩ := Bool.and_eq_true_iff.mp h
      obtain ⟨start, stop, _⟩ := i
      obtain ⟨start', stop', _⟩ := j
      obtain rfl := Double.toBits_inj.mp (eq_of_beq hstart)
      obtain rfl := Double.toBits_inj.mp (eq_of_beq hstop)
      rfl
    | _ => cases h
  | any a =>
    cases w with
    | any b => exact congrArg any (eq_of_beq h)
    | _ => cases h
  | marker m =>
    cases w with
    | marker n =>
      cases m with
      | function a =>
        cases n with
        | function b => exact congrArg (marker <| .function ·) (eq_of_beq h)
        | _ => cases h
      | lambda a =>
        cases n with
        | lambda b => exact congrArg (marker <| .lambda ·) (eq_of_beq h)
        | _ => cases h
      | type a =>
        cases n with
        | type b => exact congrArg (marker <| .type ·) (eq_of_beq h)
        | _ => cases h
      | special a =>
        cases n with
        | special b => exact congrArg (marker <| .special ·) (eq_of_beq h)
        | _ => cases h
    | _ => cases m <;> cases h

instance : BEq Value := ⟨same⟩

instance : LawfulBEq Value where
  eq_of_beq := eq_of_same
  rfl := same_self _

instance : DecidableEq Value := instDecidableEqOfLawfulBEq


def isConcrete : Value → Bool
  | intRange _ | longRange _ | floatRange _ | any _ | marker _ => false
  | _ => true

def isAbstract : Value → Bool
  | intRange _ | longRange _ | floatRange _ | any _ => true
  | _ => false

def isMarker : Value → Bool
  | marker _ => true
  | _ => false

-- The families a value may belong to. Markers belong to none.
def families : Value → List Family
  | null => [.null]
  | bool _ => [.boolean]
  | int _ | intRange _ => [.integer]
  | long _ | longRange _ => [.longint]
  | float _ | floatRange _ => [.float]
  | str _ => [.string]
  | array _ => [.array]
  | object .. => [.object]
  | resource _ => [.resource]
  | any kind => kind.families
  | marker _ => []

def mayBeArray (v : Value) : Bool :=
  .array ∈ v.families

def isArrayLike : Value → Bool
  | array _ | any .array => true
  | _ => false

def isObjectLike : Value → Bool
  | object .. | any .object => true
  | _ => false

def isLongLike : Value → Bool
  | long _ | longRange _ | any .longint => true
  | _ => false

-- Replaces an interval of one point by that point.
def normalized : Value → Value
  | intRange range => if range.isPoint then int range.start else intRange range
  | longRange range => if range.isPoint then long range.start else longRange range
  | floatRange range => if range.isPoint then float range.start else floatRange range
  | v => v

-- The numbers between two ends, in either order. Ends that do not compare bound nothing.
def numbersBetween {α : Type} [LE α] [DecidableLE α] (range : Interval α → Value) (kind : Kind)
    (a b : α) : Value :=
  ((Interval.spanning? a b).map fun i => (range i).normalized).getD (any kind)

def intsBetween (a b : Int32) : Value :=
  numbersBetween intRange .integer a b

def longsBetween (a b : Int64) : Value :=
  numbersBetween longRange .longint a b

def floatsBetween (a b : Double) : Value :=
  numbersBetween floatRange .float a b

end Value

end AbsEval
