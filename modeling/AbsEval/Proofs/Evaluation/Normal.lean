import AbsEval.Proofs.Double.Order
import AbsEval.Proofs.Evaluation.Monotone

namespace AbsEval

namespace Interval

-- An interval of more than one point has different ends, in order.
theorem start_lt_stop {α : Type} [LE α] [DecidableLE α] [LT α] [Std.LawfulOrderLT α]
    {i : Interval α} (h : ¬i.isPoint) : i.start < i.stop := by
  have hnot : ¬i.stop ≤ i.start := fun hle => h (decide_eq_true hle)
  exact (Std.LawfulOrderLT.lt_iff _ _).mpr ⟨i.ordered, hnot⟩

theorem not_isPoint {α : Type} [LE α] [DecidableLE α] [LT α] [Std.LawfulOrderLT α]
    {i : Interval α} (h : i.start < i.stop) : ¬i.isPoint := by
  intro hpoint
  exact ((Std.LawfulOrderLT.lt_iff _ _).mp h).2 (of_decide_eq_true hpoint)

end Interval

namespace Value

variable {v : Value}

-- The form in which results are given: a known value, a kind, or an interval whose ends differ and
-- are in order. A marker has none.
inductive IsNormal : Value → Prop where
  | concrete {v : Value} (h : v.isConcrete) : IsNormal v
  | any (kind : Kind) : IsNormal (any kind)
  | intRange {range : Interval Int32} (h : range.start < range.stop) : IsNormal (intRange range)
  | longRange {range : Interval Int64} (h : range.start < range.stop) : IsNormal (longRange range)
  | floatRange {range : Interval Double} (h : range.start < range.stop) :
    IsNormal (floatRange range)

theorem isNormal_normalized (h : v.isMarker = false) : v.normalized.IsNormal := by
  cases v with
  | intRange range =>
    simp only [normalized]
    split
    · exact .concrete rfl
    · next hpoint => exact .intRange (Interval.start_lt_stop hpoint)
  | longRange range =>
    simp only [normalized]
    split
    · exact .concrete rfl
    · next hpoint => exact .longRange (Interval.start_lt_stop hpoint)
  | floatRange range =>
    simp only [normalized]
    split
    · exact .concrete rfl
    · next hpoint => exact .floatRange (Interval.start_lt_stop hpoint)
  | marker m => cases h
  | any kind => exact .any kind
  | _ => exact .concrete rfl

theorem IsNormal.normalized_eq (h : v.IsNormal) : v.normalized = v := by
  cases h with
  | concrete h => exact normalized_of_isConcrete h
  | any kind => rfl
  | intRange h | longRange h | floatRange h => exact if_neg (Interval.not_isPoint h)

-- Whatever the ends are, what is made of them is normal. Where they bound nothing it is a kind.
theorem isNormal_numbersBetween {α : Type} [LE α] [DecidableLE α] {range : Interval α → Value}
    (h : ∀ i, (range i).isMarker = false) (kind : Kind) (a b : α) :
    (numbersBetween range kind a b).IsNormal := by
  unfold numbersBetween
  cases Interval.spanning? a b with
  | none => exact .any kind
  | some i => exact isNormal_normalized (h i)

theorem isNormal_intsBetween (a b : Int32) : (intsBetween a b).IsNormal :=
  isNormal_numbersBetween (fun _ => rfl) .integer a b

theorem isNormal_longsBetween (a b : Int64) : (longsBetween a b).IsNormal :=
  isNormal_numbersBetween (fun _ => rfl) .longint a b

theorem isNormal_floatsBetween (a b : Double) : (floatsBetween a b).IsNormal :=
  isNormal_numbersBetween (fun _ => rfl) .float a b

-- A known value, or a kind where there is none.
theorem isNormal_elim {α : Type} (x : Option α) (kind : Kind) {f : α → Value}
    (h : ∀ a, (f a).IsNormal) : (x.elim (any kind) f).IsNormal := by
  cases x with
  | none => exact .any kind
  | some a => exact h a

theorem isNormal_ofTruth? (truth : Option Bool) : (ofTruth? truth).IsNormal :=
  isNormal_elim truth .boolean fun _ => .concrete rfl

theorem isNormal_ofText? (text : Option String) : (ofText? text).IsNormal :=
  isNormal_elim text .string fun _ => .concrete rfl

section Width

variable {ω : Type} [LE ω] [Complement ω] [Word ω]

theorem isNormal_ofWord {integer : ω → Value} (h : ∀ w, (integer w).isConcrete) (n : Int) :
    (ofWord integer n).IsNormal := by
  unfold ofWord
  cases (word? n : Option ω) with
  | none => exact .concrete rfl
  | some w => exact .concrete (h w)

theorem isNormal_wordsBetween {integers : ω → ω → Value} (h : ∀ v w, (integers v w).IsNormal)
    {beyond : Value} (hbeyond : beyond.IsNormal) (low high : Int) :
    (wordsBetween integers low high beyond).IsNormal := by
  unfold wordsBetween
  split
  · exact h _ _
  · exact hbeyond

theorem isNormal_negatedRange {integers : ω → ω → Value} (h : ∀ v w, (integers v w).IsNormal)
    (range : Interval ω) : (negatedRange integers range).IsNormal :=
  isNormal_wordsBetween h (isNormal_floatsBetween _ _) _ _

end Width

theorem isNormal_ofInteger (n : Int) : (ofInteger n).IsNormal :=
  isNormal_ofWord (fun _ => rfl) n

theorem isConcrete_toValue (text : String) : (Numeral.toValue text).isConcrete := by
  unfold Numeral.toValue
  dsimp only
  split <;> rfl

theorem isNormal_plus (h : v.IsNormal) : v.plus.result.IsNormal := by
  cases v with
  | str text => exact .concrete (isConcrete_toValue text)
  | resource id => exact isNormal_elim _ .integer fun _ => .concrete rfl
  | intRange range | longRange range | floatRange range => exact h
  | any kind =>
    cases kind with
    | boolean => exact isNormal_intsBetween 0 1
    | _ => exact .any _
  | array _ | object _ _ | marker _ => exact .any _
  | null | bool _ | int _ | long _ | float _ => exact .concrete rfl

theorem isNormal_negatedNumber (h : v.isConcrete) : v.negatedNumber.IsNormal := by
  cases v with
  | int n => exact isNormal_ofInteger _
  | float x => exact .concrete rfl
  | _ => exact .concrete h

theorem isNormal_minus (v : Value) : v.minus.result.IsNormal := by
  cases v with
  | null => exact .concrete rfl
  | bool b => exact isNormal_ofInteger _
  | int n => exact isNormal_ofInteger _
  | float x => exact .concrete rfl
  | long n => exact isNormal_ofWord (fun _ => rfl) _
  | str text => exact isNormal_negatedNumber (isConcrete_toValue text)
  | resource id => exact isNormal_elim _ .integer fun _ => isNormal_ofInteger _
  | intRange range => exact isNormal_negatedRange isNormal_intsBetween range
  | longRange range => exact isNormal_negatedRange isNormal_longsBetween range
  | floatRange range => exact isNormal_floatsBetween _ _
  | any kind =>
    cases kind with
    | boolean => exact isNormal_intsBetween (-1) 0
    | _ => exact .any _
  | array _ | object _ _ | marker _ => exact .any _

theorem isNormal_complement (v : Value) : v.complement.result.IsNormal := by
  cases v with
  | int n | long n => exact .concrete rfl
  | float _ | floatRange _ => exact isNormal_elim _ .integer fun _ => isNormal_intsBetween _ _
  | intRange range => exact isNormal_intsBetween _ _
  | longRange range => exact isNormal_longsBetween _ _
  | any kind => cases kind <;> exact .any _
  | str _ | bool _ | array _ | object _ _ | resource _ | null | marker _ => exact .any _

theorem isNormal_castToInteger (store : Store) (v : Value) :
    (v.castToInteger store).result.IsNormal := by
  unfold castToInteger
  split
  · exact .concrete rfl
  · exact .any _
  · exact .any _
  · exact isNormal_intsBetween 0 1
  · exact isNormal_elim _ .integer fun _ => isNormal_intsBetween _ _

theorem isNormal_castToFloat (store : Store) (v : Value) :
    (v.castToFloat store).result.IsNormal := by
  unfold castToFloat
  split
  · exact .concrete rfl
  · exact .any _
  · exact .any _
  · simp only [Noted.quiet, isNormal_floatsBetween]
  · exact isNormal_elim _ .float fun _ => isNormal_floatsBetween _ _

end Value

open Value (IsNormal isNormal_elim isNormal_floatsBetween isNormal_intsBetween
  isNormal_longsBetween isNormal_wordsBetween)

theorem Store.isNormal_toObject (store : Store) (v : Value) :
    (store.toObject v).1.IsNormal := by
  cases v with
  | intRange _ | longRange _ | floatRange _ | any _ | marker _ => exact .any _
  | _ => exact .concrete rfl

theorem Store.isNormal_toArray (store : Store) (v : Value) : (store.toArray v).1.IsNormal := by
  cases v with
  | intRange _ | longRange _ | floatRange _ | any _ | marker _ => exact .any _
  | _ => exact .concrete rfl

theorem Store.isNormal_cloneObject (store : Store) (id : UInt32) (className : String) :
    (store.cloneObject id className).1.IsNormal :=
  .concrete (v := .object store.nextObject className) rfl

theorem Store.isNormal_unionArrays (store : Store) (l r : Value) :
    (store.unionArrays l r).1.IsNormal :=
  .concrete (v := .array store.nextArray) rfl

section Width

variable {ω : Type} [LE ω] [Complement ω] [Word ω]

theorem CountOp.isNormal_countWord (op : CountOp) {integer : ω → Value}
    (h : ∀ w, (integer w).isConcrete) (n : ω) : (op.countWord integer n).IsNormal := by
  unfold countWord
  cases (word? (Word.toInt n + op.amount) : Option ω) with
  | none => exact .concrete rfl
  | some w => exact .concrete (h w)

theorem CountOp.isNormal_shiftRange (op : CountOp) {integers : ω → ω → Value}
    (h : ∀ v w, (integers v w).IsNormal) (range : Interval ω) :
    (op.shiftRange integers range).IsNormal :=
  isNormal_wordsBetween h (isNormal_floatsBetween _ _) _ _

end Width

-- What cannot be counted is given back.
theorem CountOp.isNormal_apply (op : CountOp) {v : Value} (h : v.IsNormal) :
    (op.apply v).IsNormal := by
  cases v with
  | int n => exact op.isNormal_countWord (fun _ => rfl) n
  | long n => exact op.isNormal_countWord (fun _ => rfl) n
  | float x => exact .concrete rfl
  | intRange range => exact op.isNormal_shiftRange isNormal_intsBetween range
  | longRange range => exact op.isNormal_shiftRange isNormal_longsBetween range
  | floatRange range => exact isNormal_floatsBetween _ _
  | str text =>
    cases op with
    | increment => exact .any _
    | decrement => exact h
  | null => cases op <;> exact .concrete rfl
  | any kind =>
    cases kind with
    | string => cases op <;> exact .any _
    | _ => exact .any _
  | bool _ | array _ | object _ _ | resource _ | marker _ => exact h

namespace ArithmeticOp

theorem isNormal_intResult (op : ArithmeticOp) (a b : Int32) : (op.intResult a b).IsNormal := by
  unfold intResult
  cases (op.onInts? a.toInt b.toInt).bind int32? <;> exact .concrete rfl

theorem isNormal_floatCorners (op : ArithmeticOp) (l r : OperandRange) :
    (op.floatCorners l r).IsNormal := by
  unfold floatCorners
  dsimp only
  split
  · exact .any _
  · exact isNormal_floatsBetween _ _

theorem isNormal_of_intCorners? {op : ArithmeticOp} {a b c d : Int32} {v : Value}
    (h : op.intCorners? a b c d = some v) : v.IsNormal := by
  unfold intCorners? at h
  simp only [Option.bind_eq_bind, Option.bind_eq_some_iff, Option.some.injEq] at h
  obtain ⟨_, _, _, _, _, _, rfl⟩ := h
  exact isNormal_intsBetween _ _

theorem isNormal_rangeResult (op : ArithmeticOp) (l r : OperandRange) :
    (op.rangeResult l r).IsNormal := by
  unfold rangeResult
  split
  · next a b c d =>
    cases hcorners : op.intCorners? a b c d with
    | none => exact isNormal_floatCorners op _ _
    | some v => exact isNormal_of_intCorners? hcorners
  · exact isNormal_floatCorners op _ _

theorem isNormal_onOperands (op : ArithmeticOp) (l r : Operand) :
    (op.onOperands l r).result.IsNormal := by
  unfold onOperands
  split
  · cases r with
    | int _ | float _ => exact .concrete rfl
    | _ => exact .any _
  · split
    · exact .any _
    · exact .any _
    · exact isNormal_intResult op _ _
    · exact .concrete rfl
    · exact .concrete rfl
    · exact .concrete rfl
    · exact .any _
    · exact .any _
    · split
      · exact isNormal_rangeResult op _ _
      · exact .any _

theorem isNormal_apply (op : ArithmeticOp) (l r : Value) : (op.apply l r).result.IsNormal := by
  have harrays : (op.onArrays l r).result.IsNormal := by
    unfold onArrays
    split
    · split <;> exact .any _
    · split <;> exact .any _
  unfold apply
  split
  · exact harrays
  · split
    · exact .any _
    · exact isNormal_onOperands op _ _

end ArithmeticOp

theorem BitOp.isNormal_apply (op : BitOp) (store : Store) (l r : Value) :
    (op.apply store l r).result.IsNormal := by
  unfold apply
  split
  · exact .any _
  · dsimp only
    split
    · exact .concrete rfl
    · exact .any _

namespace Remainder

theorem isNormal_bounds (low high least greatest : Int) :
    (bounds low high least greatest).IsNormal := by
  have hbetween : ∀ a b, (integersBetween a b).IsNormal := by
    intro a b
    unfold integersBetween
    split
    · exact isNormal_intsBetween _ _
    · exact .any _
  unfold bounds
  split
  · exact hbetween _ _
  · exact hbetween _ _

theorem isNormal_ofOperands (dividend divisor : Operand) :
    (ofOperands dividend divisor).result.IsNormal := by
  unfold ofOperands
  split
  · split
    · exact .concrete rfl
    · exact .any _
  · split
    · exact .concrete rfl
    · exact isNormal_bounds _ _ _ _
    · exact isNormal_bounds _ _ _ _
    · exact isNormal_bounds _ _ _ _

end Remainder

namespace Eval

variable {α β : Type}

-- Every result has the property, under all options and from all states.
def Ensures (x : Eval α) (P : α → Prop) : Prop :=
  ∀ options state a, (x.run options state).1 = .ok a → P a

section Ensures

variable {P : α → Prop} {Q : β → Prop}

theorem ensures_pure {a : α} (h : P a) : Ensures (pure a) P := by
  intro options state b hb
  cases hb
  exact h

theorem ensures_throw (fault : Fault) : Ensures (throw fault) P := by
  intro options state b hb
  cases hb

theorem ensures_note {x : Noted α} (h : P x.result) : Ensures (note x) P := by
  intro options state b hb
  cases hb
  exact h

theorem ensures_update {f : Store → α × Store} (h : ∀ store, P (f store).1) :
    Ensures (update f) P := by
  intro options state b hb
  cases hb
  exact h state.store

theorem ensures_ofExcept {x : Except Fault α} (h : ∀ a, x = .ok a → P a) :
    Ensures (ofExcept x) P := by
  intro options state b hb
  rw [run_ofExcept] at hb
  exact h b hb

theorem Ensures.bind {x : Eval β} {f : β → Eval α} (hx : Ensures x Q)
    (hf : ∀ b, Q b → Ensures (f b) P) : Ensures (x >>= f) P := by
  intro options state a ha
  rcases hrun : (x >>= f).run options state with ⟨result, last⟩
  rw [hrun] at ha
  obtain rfl : result = .ok a := ha
  obtain ⟨b, next, hb, hnext⟩ := run_bind_eq_ok options state hrun
  exact hf b (hx options state b (congrArg Prod.fst hb)) options next a (congrArg Prod.fst hnext)

-- Where nothing has to be known of the first part.
theorem ensures_bind {x : Eval β} {f : β → Eval α} (hf : ∀ b, Ensures (f b) P) :
    Ensures (x >>= f) P :=
  Ensures.bind (Q := fun _ => True) (fun _ _ _ _ => trivial) fun b _ => hf b

end Ensures

theorem ensures_expectData (v : Value) : Ensures (expectData v) fun _ => v.isMarker = false := by
  refine ensures_ofExcept fun _ h => ?_
  unfold Value.whenData at h
  split at h
  · cases h
  · next hdata => simpa using hdata

theorem ensures_cast (op : CastOp) (v : Value) : Ensures (cast op v) IsNormal := by
  cases op with
  | int32 => exact ensures_bind fun store => ensures_note (Value.isNormal_castToInteger store v)
  | float | double =>
    exact ensures_bind fun store => ensures_note (Value.isNormal_castToFloat store v)
  | string | unicode =>
    refine ensures_ofExcept fun r h => ?_
    obtain ⟨_, -, rfl⟩ := map_eq_ok h
    exact Value.isNormal_ofText? _
  | bool => exact ensures_bind fun store => ensures_pure (Value.isNormal_ofTruth? _)
  | object =>
    exact ensures_bind fun _ => ensures_update fun store => store.isNormal_toObject v
  | array =>
    exact ensures_bind fun _ => ensures_update fun store => store.isNormal_toArray v
  | unset => exact ensures_pure (.concrete rfl)
  | int8 | int16 | int64 | uint8 | uint16 | uint32 | uint64 | binary => exact ensures_throw _

theorem ensures_clone (v : Value) : Ensures (clone v) IsNormal := by
  unfold clone
  split
  · exact ensures_update fun store => store.isNormal_cloneObject _ _
  · exact ensures_pure (.any _)
  · exact ensures_note (.any _)

theorem ensures_unary (op : UnaryOp) (v : Value) : Ensures (unary op v) IsNormal := by
  refine (ensures_expectData v.normalized).bind fun _ hdata => ?_
  have hv : v.normalized.IsNormal := Value.isNormal_normalized (by simpa using hdata)
  cases op with
  | plus => exact ensures_note (Value.isNormal_plus hv)
  | minus => exact ensures_note (Value.isNormal_minus _)
  | complement => exact ensures_note (Value.isNormal_complement _)
  | not => exact ensures_bind fun store => ensures_pure (Value.isNormal_ofTruth? _)
  | cast op => exact ensures_cast op _
  | clone => exact ensures_clone _
  | print => exact ensures_pure (.concrete rfl)
  | silence => exact ensures_pure hv

theorem ensures_count (op : CountOp) (v : Value) : Ensures (count op v) IsNormal := by
  refine (ensures_expectData v.normalized).bind fun _ hdata => ensures_pure ?_
  exact op.isNormal_apply (Value.isNormal_normalized (by simpa using hdata))

theorem ensures_arithmetic (op : ArithmeticOp) (l r : Value) :
    Ensures (arithmetic op l r) IsNormal := by
  unfold arithmetic
  split
  · refine ensures_bind fun options => ?_
    split
    · exact ensures_update fun store => store.isNormal_unionArrays _ _
    · exact ensures_note (ArithmeticOp.isNormal_apply _ _ _)
  · exact ensures_note (ArithmeticOp.isNormal_apply _ _ _)

theorem ensures_binary (l : Value) (op : BinaryOp) (r : Value) :
    Ensures (binary l op r) IsNormal := by
  refine ensures_bind fun _ => ensures_bind fun _ => ?_
  cases op with
  | concat =>
    refine ensures_ofExcept fun v h => ?_
    obtain ⟨_, -, h⟩ := bind_eq_ok h
    obtain ⟨_, -, h⟩ := bind_eq_ok h
    cases h
    exact Value.isNormal_ofText? _
  | logic op =>
    exact ensures_bind fun _ => ensures_bind fun _ => ensures_pure (Value.isNormal_ofTruth? _)
  | identity op =>
    refine ensures_bind fun _ => ensures_bind fun options => ?_
    split
    · exact ensures_bind fun _ => ensures_pure (Value.isNormal_ofTruth? _)
    · exact ensures_pure (Value.isNormal_ofTruth? _)
  | compare op =>
    exact ensures_bind fun _ => ensures_bind fun _ => ensures_bind fun _ =>
      ensures_pure (Value.isNormal_ofTruth? _)
  | arithmetic op => exact ensures_bind fun _ => ensures_arithmetic op _ _
  | bitwise op =>
    exact ensures_bind fun _ => ensures_bind fun store =>
      ensures_note (op.isNormal_apply store _ _)
  | modulo =>
    exact ensures_bind fun _ => ensures_bind fun store =>
      ensures_note (Remainder.isNormal_ofOperands _ _)

-- Operands count by what they are when collapsed.

theorem unary_congr (op : UnaryOp) {v w : Value} (h : v.normalized = w.normalized) :
    unary op v = unary op w := by
  unfold unary
  rw [h]

theorem count_congr (op : CountOp) {v w : Value} (h : v.normalized = w.normalized) :
    count op v = count op w := by
  unfold count
  rw [h]

theorem binary_congr (op : BinaryOp) {l r v w : Value} (hl : l.normalized = v.normalized)
    (hr : r.normalized = w.normalized) : binary l op r = binary v op w := by
  unfold binary
  rw [hl, hr]

-- Every result is normal. It stays as it is when it is collapsed again, and whatever collapses to it
-- is evaluated as it is.
theorem results_normal (options : Options) (state : State) {r : Value}
    (h : (∃ op v, ((unary op v).run options state).1 = .ok r) ∨
      (∃ op v, ((count op v).run options state).1 = .ok r) ∨
      ∃ left op right, ((binary left op right).run options state).1 = .ok r) :
    r.IsNormal ∧ r.normalized = r ∧
      ∀ w : Value, w.normalized = r →
        (∀ op, unary op w = unary op r) ∧ (∀ op, count op w = count op r) ∧
        ∀ op v, binary w op v = binary r op v ∧ binary v op w = binary v op r := by
  have hr : r.IsNormal := by
    rcases h with ⟨op, v, h⟩ | ⟨op, v, h⟩ | ⟨left, op, right, h⟩
    · exact ensures_unary op v options state r h
    · exact ensures_count op v options state r h
    · exact ensures_binary left op right options state r h
  refine ⟨hr, hr.normalized_eq, fun w hw => ?_⟩
  have hsame : w.normalized = r.normalized := hw.trans hr.normalized_eq.symm
  exact ⟨fun op => unary_congr op hsame, fun op => count_congr op hsame,
    fun op v => ⟨binary_congr op hsame rfl, binary_congr op rfl hsame⟩⟩

-- An interval of one point is added to a truth that may be either.
theorem results_normal_sum :
    ((binary (.intRange ⟨3, 3, by decide⟩) (.arithmetic .add) (.any .boolean)).run {}
      .initial).1 = .ok (.intRange ⟨3, 4, by decide⟩) ∧
    (Value.intRange ⟨3, 4, by decide⟩).IsNormal := by
  have h : ((binary (.intRange ⟨3, 3, by decide⟩) (.arithmetic .add) (.any .boolean)).run {}
      .initial).1 = .ok (.intRange ⟨3, 4, by decide⟩) := by
    decide
  exact ⟨h, (results_normal {} .initial (.inr (.inr ⟨_, _, _, h⟩))).1⟩

end Eval

end AbsEval
