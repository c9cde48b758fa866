import AbsEval.ArrayLiteral
import AbsEval.Proofs.Evaluation
import Mathlib.Data.List.Basic

namespace AbsEval

-- The operators that may make a container, whatever the options.
def UnaryOp.makesContainer : UnaryOp → Bool
  | cast .object | cast .array | clone => true
  | _ => false

theorem UnaryOp.makesContainer_iff {op : UnaryOp} :
    op.makesContainer ↔ op = cast .object ∨ op = cast .array ∨ op = clone := by
  constructor
  · intro h
    cases op with
    | cast op =>
      cases op with
      | object => exact .inl rfl
      | array => exact .inr (.inl rfl)
      | _ => cases h
    | clone => exact .inr (.inr rfl)
    | _ => cases h
  · rintro (rfl | rfl | rfl) <;> rfl

-- The sum of two known arrays, where it is built.
def BinaryOp.UnitesArrays (options : Options) (left : Value) (op : BinaryOp) (right : Value) :
    Prop :=
  op = .arithmetic .add ∧ options.materializeArrayUnion ∧
    (∃ id, left = .array id) ∧ ∃ id, right = .array id

theorem Value.eq_array_of_normalized {v : Value} {id : UInt32} (h : v.normalized = array id) :
    v = array id := by
  cases v with
  | intRange range | longRange range | floatRange range =>
    simp only [normalized] at h
    split at h <;> cases h
  | _ => exact h

namespace Eval

variable {α β : Type} {options : Options} {state : State}

-- The result depends on the options and the store alone, and the store is left as it was.
structure Observes (options : Options) (x : Eval α) : Prop where
  store_eq : ∀ state, (x.run options state).2.store = state.store
  result_eq : ∀ {s s' : State}, s.store = s'.store → (x.run options s).1 = (x.run options s').1

theorem observes_pure (a : α) : Observes options (pure a : Eval α) :=
  ⟨fun _ => rfl, fun _ => rfl⟩

theorem observes_throw (fault : Fault) : Observes options (throw fault : Eval α) :=
  ⟨fun _ => rfl, fun _ => rfl⟩

theorem observes_read : Observes options (read : Eval Options) :=
  ⟨fun _ => rfl, fun _ => rfl⟩

theorem observes_getStore : Observes options getStore :=
  ⟨fun _ => rfl, fun h => congrArg Except.ok h⟩

theorem observes_warn (warning : Warning) : Observes options (warn warning) :=
  ⟨fun _ => rfl, fun _ => rfl⟩

theorem observes_note (x : Noted α) : Observes options (note x) :=
  ⟨fun _ => rfl, fun _ => rfl⟩

theorem observes_ofExcept (x : Except Fault α) : Observes options (ofExcept x) := by
  cases x with
  | ok a => exact observes_pure a
  | error fault => exact observes_throw fault

-- The options are given, so only what follows them matters.
theorem observes_read_bind {f : Options → Eval β} (h : Observes options (f options)) :
    Observes options (read >>= f) :=
  ⟨h.store_eq, h.result_eq⟩

-- What follows finds the store that the first part found.
theorem Observes.fst_run_bind {x : Eval α} {f : α → Eval β} (hx : Observes options x)
    (hf : ∀ a, Observes options (f a)) (state : State) :
    ((x >>= f).run options state).1 =
      (x.run options state).1 >>= fun a => ((f a).run options state).1 := by
  have hstore := hx.store_eq state
  rcases hrun : x.run options state with ⟨fault | a, next⟩
  · rw [run_bind_error options state hrun]
    rfl
  · rw [hrun] at hstore
    rw [run_bind_ok options state hrun]
    exact (hf a).result_eq hstore

theorem Observes.bind {x : Eval α} {f : α → Eval β} (hx : Observes options x)
    (hf : ∀ a, Observes options (f a)) : Observes options (x >>= f) := by
  constructor
  · intro state
    have hstore := hx.store_eq state
    rcases hrun : x.run options state with ⟨fault | a, next⟩
    · rw [hrun] at hstore
      rw [run_bind_error options state hrun, hstore]
    · rw [hrun] at hstore
      rw [run_bind_ok options state hrun, (hf a).store_eq, hstore]
  · intro s s' h
    rw [hx.fst_run_bind hf, hx.fst_run_bind hf, hx.result_eq h]
    exact bind_congr fun a => (hf a).result_eq h

theorem observes_collect (results : List Value) : Observes options (collect results) := by
  unfold collect
  split
  · exact observes_pure _
  · exact observes_throw _

theorem observes_mapM {f : α → Eval β} {xs : List α} (hf : ∀ x ∈ xs, Observes options (f x)) :
    Observes options (xs.mapM f) := by
  induction xs with
  | nil => exact observes_pure _
  | cons x xs ih =>
    obtain ⟨hx, hxs⟩ := List.forall_mem_cons.mp hf
    rw [List.mapM_cons]
    exact hx.bind fun _ => (ih hxs).bind fun _ => observes_pure _

theorem fst_run_mapM {f : α → Eval β} {xs : List α} (hf : ∀ x ∈ xs, Observes options (f x))
    (state : State) :
    ((xs.mapM f).run options state).1 = xs.mapM fun x => ((f x).run options state).1 := by
  induction xs with
  | nil => rfl
  | cons x xs ih =>
    obtain ⟨hx, hxs⟩ := List.forall_mem_cons.mp hf
    have hrest := observes_mapM hxs
    rw [List.mapM_cons, List.mapM_cons,
      hx.fst_run_bind fun b => hrest.bind fun bs => observes_pure (b :: bs)]
    refine bind_congr fun b => ?_
    rw [hrest.fst_run_bind fun bs => observes_pure (b :: bs), ih hxs]
    rfl

theorem observes_expectData (v : Value) : Observes options (expectData v) :=
  observes_ofExcept _

theorem observes_rejectForeign (v : Value) : Observes options (rejectForeign v) := by
  unfold rejectForeign
  split
  · exact observes_throw _
  · exact observes_pure _

theorem observes_expectOperands (left right : Value) :
    Observes options (expectOperands left right) := by
  refine (observes_expectData left).bind fun _ => (observes_expectData right).bind fun _ => ?_
  split
  · exact observes_throw _
  · exact observes_pure _

theorem observes_count (op : CountOp) (v : Value) : Observes options (count op v) :=
  (observes_expectData _).bind fun _ => observes_pure _

theorem observes_unary {op : UnaryOp} (h : op.makesContainer = false) (v : Value) :
    Observes options (unary op v) := by
  refine (observes_expectData _).bind fun _ => ?_
  cases op with
  | plus | minus | complement => exact observes_note _
  | not => exact observes_getStore.bind fun _ => observes_pure _
  | cast op =>
    cases op with
    | int32 | float | double => exact observes_getStore.bind fun _ => observes_note _
    | bool => exact observes_getStore.bind fun _ => observes_pure _
    | string | unicode => exact observes_ofExcept _
    | unset => exact observes_pure _
    | int8 | int16 | int64 | uint8 | uint16 | uint32 | uint64 | binary => exact observes_throw _
    | object | array => cases h
  | clone => cases h
  | print | silence => exact observes_pure _

theorem observes_identity (op : IdentityOp) (left right : Value) :
    Observes options (identity op left right) := by
  refine observes_read_bind ?_
  split
  · exact (observes_warn _).bind fun _ => observes_pure _
  · exact (observes_pure _).bind fun _ => observes_pure _

theorem observes_compare (op : CompareOp) (left right : Value) :
    Observes options (compare op left right) :=
  observes_getStore.bind fun _ => (observes_note _).bind fun _ => observes_pure _

theorem observes_logic (op : LogicOp) (left right : Value) :
    Observes options (logic op left right) :=
  observes_getStore.bind fun _ => (observes_ofExcept _).bind fun _ => observes_pure _

theorem observes_arithmetic {op : ArithmeticOp} {left right : Value}
    (h : ¬BinaryOp.UnitesArrays options left (.arithmetic op) right) :
    Observes options (arithmetic op left right) := by
  unfold arithmetic
  split
  · refine observes_read_bind ?_
    split
    · next hunion => exact absurd ⟨rfl, hunion, ⟨_, rfl⟩, _, rfl⟩ h
    · exact observes_note _
  · exact observes_note _

theorem observes_binary {left right : Value} {op : BinaryOp}
    (h : ¬BinaryOp.UnitesArrays options left op right) :
    Observes options (binary left op right) := by
  have hnormalized : ¬BinaryOp.UnitesArrays options left.normalized op right.normalized := by
    rintro ⟨hop, hunion, ⟨id, hl⟩, id', hr⟩
    exact h ⟨hop, hunion, ⟨id, Value.eq_array_of_normalized hl⟩, id',
      Value.eq_array_of_normalized hr⟩
  refine (observes_rejectForeign _).bind fun _ => (observes_rejectForeign _).bind fun _ => ?_
  cases op with
  | concat => exact observes_ofExcept _
  | logic op => exact observes_logic op _ _
  | identity op => exact (observes_expectOperands _ _).bind fun _ => observes_identity op _ _
  | compare op => exact (observes_expectOperands _ _).bind fun _ => observes_compare op _ _
  | arithmetic op =>
    exact (observes_expectOperands _ _).bind fun _ => observes_arithmetic hnormalized
  | bitwise op =>
    exact (observes_expectOperands _ _).bind fun _ =>
      observes_getStore.bind fun _ => observes_note _
  | modulo =>
    exact (observes_expectOperands _ _).bind fun _ =>
      observes_getStore.bind fun _ => observes_note _

theorem observes_logicEntry (op : LogicOp) (left right : Entry) :
    Observes options (logicEntry op left right) :=
  observes_getStore.bind fun _ => (observes_ofExcept _).bind fun _ => observes_pure _

theorem observes_concatEntry (left right : Entry) : Observes options (concatEntry left right) :=
  (observes_ofExcept _).bind fun _ => (observes_ofExcept _).bind fun _ => observes_collect _

theorem observes_candidate (illegal : Warning) (v : Value) :
    Observes options (candidate illegal v) := by
  refine (observes_expectData v).bind fun _ => observes_read_bind ?_
  dsimp only
  split
  · exact (observes_warn _).bind fun _ => observes_pure _
  · exact (observes_pure _).bind fun _ => observes_pure _

theorem observes_itemKeys (counter : Counter) (items : List (Option Entry)) :
    Observes options (itemKeys counter items) := by
  induction items generalizing counter with
  | nil => exact observes_pure _
  | cons item items ih =>
    cases item with
    | some key =>
      have hclassify : Observes options (classify .illegalOffsetInLiteral key) :=
        (observes_mapM fun v _ => observes_candidate _ v).bind fun _ => observes_pure _
      exact hclassify.bind fun c => (ih _).bind fun _ => observes_pure _
    | none =>
      have hrest : Observes options (itemKeys counter.afterItem items >>= fun keys =>
          pure (counter.selector :: keys)) :=
        (ih _).bind fun _ => observes_pure _
      unfold itemKeys
      split
      · exact (observes_warn _).bind fun _ => hrest
      · exact hrest

end Eval

end AbsEval
