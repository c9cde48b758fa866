import AbsEval.Proofs.Evaluation.Effects

namespace AbsEval

namespace Eval

-- The state after some evaluations in turn, up to the first that fails.
def runAll (options : Options) : List (Eval Value) → State → State
  | [], state => state
  | x :: xs, state =>
    match x.run options state with
    | (.ok _, next) => runAll options xs next
    | (.error _, next) => next

-- How many containers of each sort they make.
def madeBy (options : Options) : List (Eval Value) → State → Counts
  | [], _ => fun _ => 0
  | x :: xs, state =>
    match x.run options state with
    | (.ok _, next) => (state.store.made next.store).add (madeBy options xs next)
    | (.error _, next) => state.store.made next.store

theorem runAll_singleton (options : Options) (state : State) (x : Eval Value) :
    runAll options [x] state = (x.run options state).2 := by
  rcases hrun : x.run options state with ⟨fault | a, next⟩ <;> simp only [runAll, hrun]

-- The state after a bind whose second part changes nothing.
theorem snd_run_bind {α β : Type} {options : Options} {state : State} {x : Eval α} {f : α → Eval β}
    (hf : ∀ a next, ((f a).run options next).2 = next) :
    ((x >>= f).run options state).2 = (x.run options state).2 := by
  rcases hrun : x.run options state with ⟨fault | a, next⟩
  · rw [run_bind_error options state hrun]
  · rw [run_bind_ok options state hrun, hf]

theorem runAll_map {α : Type} (options : Options) (state : State) (f : α → Eval Value)
    (xs : List α) : runAll options (xs.map f) state = ((xs.mapM f).run options state).2 := by
  induction xs generalizing state with
  | nil => rfl
  | cons x xs ih =>
    rw [List.mapM_cons]
    rcases hrun : (f x).run options state with ⟨fault | a, next⟩
    · rw [run_bind_error options state hrun]
      simp only [List.map_cons, runAll, hrun]
    · rw [run_bind_ok options state hrun, snd_run_bind fun _ _ => rfl, ← ih]
      simp only [List.map_cons, runAll, hrun]

theorem snd_run_collect (options : Options) (state : State) (results : List Value) :
    ((collect results).run options state).2 = state := by
  unfold collect
  split <;> rfl

-- What evaluation after evaluation keeps.
theorem consistent_runAll {options : Options} {xs : List (Eval Value)} {state : State}
    {count : Counts} (hbuilds : ∀ x ∈ xs, x.Builds (Path.Within count))
    (hs : state.store.Consistent count)
    (hroom : ∀ access, count access + madeBy options xs state access ≤ 2 ^ 32) :
    (runAll options xs state).store.Consistent (count.add (madeBy options xs state)) ∧
      Store.Frame count state.store (runAll options xs state).store := by
  induction xs generalizing state count with
  | nil => exact ⟨hs, Store.Frame.refl count state.store⟩
  | cons x xs ih =>
    obtain ⟨hx, hxs⟩ := List.forall_mem_cons.mp hbuilds
    have hgrows := hx options state
    rcases hrun : x.run options state with ⟨fault | a, next⟩
    · simp only [runAll, madeBy, hrun] at hgrows hroom ⊢
      exact Store.consistent_of_grows hgrows hs hroom
    · simp only [runAll, madeBy, hrun, Counts.add, ← Nat.add_assoc] at hgrows hroom ⊢
      obtain ⟨hnext, hframe⟩ := Store.consistent_of_grows hgrows hs fun access =>
        Nat.le_trans (Nat.le_add_right _ _) (hroom access)
      have hbuilds' : ∀ x ∈ xs, x.Builds (Path.Within (count.add (state.store.made next.store))) :=
        fun x hx options state =>
          (hxs x hx options state).mono fun path hpath => Entry.within_add hpath
      obtain ⟨hlast, hframe'⟩ := ih hbuilds' hnext hroom
      rw [Counts.add_assoc] at hlast
      exact ⟨hlast, hframe.trans hframe'⟩

end Eval

-- The evaluators with their operands.
inductive Call where
  | unary (op : UnaryOp) (v : Value)
  | unaryEntry (op : UnaryOp) (e : Entry)
  | count (op : CountOp) (v : Value)
  | countEntry (op : CountOp) (e : Entry)
  | binary (left : Value) (op : BinaryOp) (right : Value)
  | binaryEntry (left : Entry) (op : BinaryOp) (right : Entry)
  | toObject (v : Value)
  | toArray (v : Value)
  | arrayLiteral (items : List (Option Entry × Entry))

namespace Call

def operands : Call → List Value
  | unary _ v | count _ v | toObject v | toArray v => [v]
  | unaryEntry _ e | countEntry _ e => e.values
  | binary left _ right => [left, right]
  | binaryEntry left _ right => left.values ++ right.values
  | arrayLiteral items => items.flatMap fun item => item.1.elim [] Entry.values ++ item.2.values

-- The state that a call leaves, whether it succeeds or not.
def after (options : Options) (state : State) : Call → State
  | unary op v => ((Eval.unary op v).run options state).2
  | unaryEntry op e => ((Eval.unaryEntry op e).run options state).2
  | count op v => ((Eval.count op v).run options state).2
  | countEntry op e => ((Eval.countEntry op e).run options state).2
  | binary left op right => ((Eval.binary left op right).run options state).2
  | binaryEntry left op right => ((Eval.binaryEntry left op right).run options state).2
  | toObject v => ((Eval.toObject v).run options state).2
  | toArray v => ((Eval.toArray v).run options state).2
  | arrayLiteral items => ((Eval.arrayLiteral items).run options state).2

-- The evaluations of single values that a call consists of. Concatenation and logic of entries have
-- none, they make no containers.
def parts : Call → List (Eval Value)
  | unary op v => [Eval.unary op v]
  | unaryEntry op e => e.values.map (Eval.unary op)
  | count op v => [Eval.count op v]
  | countEntry op e => e.values.map (Eval.count op)
  | binary left op right => [Eval.binary left op right]
  | binaryEntry _ .concat _ | binaryEntry _ (.logic _) _ => []
  | binaryEntry left op right =>
    (left.values.flatMap fun l => right.values.map fun r => (l, r)).map fun (l, r) =>
      Eval.binary l op r
  | toObject v => [Eval.toObject v]
  | toArray v => [Eval.toArray v]
  | arrayLiteral items => [Eval.arrayLiteral items]

def made (options : Options) (state : State) (call : Call) : Counts :=
  Eval.madeBy options call.parts state

theorem store_after (options : Options) (state : State) (call : Call) :
    (call.after options state).store = (Eval.runAll options call.parts state).store := by
  have hentry : ∀ {α : Type} (f : α → Eval Value) (xs : List α),
      ((xs.mapM f >>= Eval.collect).run options state).2 =
        Eval.runAll options (xs.map f) state := by
    intro α f xs
    rw [Eval.snd_run_bind fun a next => Eval.snd_run_collect options next a, Eval.runAll_map]
  cases call with
  | unary op v | count op v | toObject v | toArray v | arrayLiteral items | binary left op right =>
    exact congrArg State.store (Eval.runAll_singleton options state _).symm
  | unaryEntry op e | countEntry op e => exact congrArg State.store (hentry _ _)
  | binaryEntry left op right =>
    cases op with
    | concat => exact (Eval.observes_concatEntry left right).store_eq state
    | logic op =>
      exact ((Eval.observes_logicEntry op left right).bind
        fun _ => Eval.observes_pure _).store_eq state
    | arithmetic op | bitwise op | compare op | identity op | modulo =>
      exact congrArg State.store (hentry _ _)

-- What is found from the operands goes into what the parts make.
theorem builds_parts {given : Path → Prop} {call : Call}
    (hpath : ∀ v ∈ call.operands, ∀ steps, given ⟨.single v, steps⟩)
    (hnormalized : ∀ v ∈ call.operands, ∀ steps, given ⟨.single v.normalized, steps⟩)
    (hentry : ∀ e : Entry, (∀ v ∈ e.values, v ∈ call.operands) → given (.ofEntry e)) :
    ∀ x ∈ call.parts, x.Builds given := by
  intro x hx
  cases call with
  | unary op v =>
    rw [List.mem_singleton.mp hx]
    exact Eval.builds_unary op (hnormalized v (by simp [operands]))
  | unaryEntry op e =>
    obtain ⟨v, hv, rfl⟩ := List.mem_map.mp hx
    exact Eval.builds_unary op (hnormalized v hv)
  | count op v =>
    rw [List.mem_singleton.mp hx]
    exact Eval.builds_of_observes fun _ => Eval.observes_count op v
  | countEntry op e =>
    obtain ⟨v, -, rfl⟩ := List.mem_map.mp hx
    exact Eval.builds_of_observes fun _ => Eval.observes_count op v
  | binary left op right =>
    rw [List.mem_singleton.mp hx]
    exact Eval.builds_binary op (hnormalized left (by simp [operands]))
      (hnormalized right (by simp [operands]))
  | binaryEntry left op right =>
    have hpairs : ∀ y ∈ (left.values.flatMap fun l => right.values.map fun r => (l, r)).map
        (fun (l, r) => Eval.binary l op r), y.Builds given := by
      intro y hy
      obtain ⟨⟨l, r⟩, hpair, rfl⟩ := List.mem_map.mp hy
      obtain ⟨l', hl, hpair⟩ := List.mem_flatMap.mp hpair
      obtain ⟨r', hr, heq⟩ := List.mem_map.mp hpair
      cases heq
      exact Eval.builds_binary op (hnormalized l (List.mem_append_left _ hl))
        (hnormalized r (List.mem_append_right _ hr))
    cases op with
    | concat | logic op => cases hx
    | arithmetic op | bitwise op | compare op | identity op | modulo => exact hpairs x hx
  | toObject v =>
    rw [List.mem_singleton.mp hx]
    exact Eval.builds_toObject (hpath v (by simp [operands]))
  | toArray v =>
    rw [List.mem_singleton.mp hx]
    exact Eval.builds_toArray (hpath v (by simp [operands]))
  | arrayLiteral items =>
    rw [List.mem_singleton.mp hx]
    refine Eval.builds_arrayLiteral fun item hitem => hentry item.2 fun v hv => ?_
    exact List.mem_flatMap.mpr ⟨item, hitem, List.mem_append_right _ hv⟩

theorem builds_parts_within {count : Counts} {call : Call}
    (h : ∀ v ∈ call.operands, v.Within count) :
    ∀ x ∈ call.parts, x.Builds (Path.Within count) :=
  builds_parts (fun v hv _ => Entry.within_single (h v hv))
    (fun v hv _ => Entry.within_single (Value.within_normalized (h v hv)))
    fun _ he v hv => h v (he v hv)

-- The operands mention only containers in use, and there are identities for all that is made.
structure Fits (options : Options) (count : Counts) (state : State) (call : Call) : Prop where
  within : ∀ v ∈ call.operands, v.Within count
  room : ∀ access, count access + call.made options state access ≤ 2 ^ 32

theorem consistent_after {options : Options} {count : Counts} {state : State} {call : Call}
    (hs : state.store.Consistent count) (h : call.Fits options count state) :
    (call.after options state).store.Consistent (count.add (call.made options state)) ∧
      Store.Frame count state.store (call.after options state).store := by
  rw [store_after]
  exact Eval.consistent_runAll (builds_parts_within h.within) hs h.room

end Call

-- The states that are reached by operations that mention only containers in use, with how many were
-- made.
inductive Reached : Counts → State → Prop where
  | initial : Reached (fun _ => 0) .initial
  | newArray {count : Counts} {state : State} : Reached count state → count .index < 2 ^ 32 →
      Reached (count.add (.single .index)) { state with store := state.store.newArray.2 }
  | newObject {count : Counts} {state : State} (className : String) : Reached count state →
      count .field < 2 ^ 32 →
      Reached (count.add (.single .field))
        { state with store := (state.store.newObject className).2 }
  | newResource {count : Counts} {state : State} : Reached count state →
      Reached count { state with store := state.store.newResource.2 }
  | write {count : Counts} {state : State} {path : Path} {entry : Entry} : Reached count state →
      path.Within count → entry.Within count →
      Reached count { state with store := state.store.write path entry }
  | addAliases {count : Counts} {state : State} {path : Path} {others : List Path} :
      Reached count state → path.Within count → (∀ other ∈ others, other.Within count) →
      Reached count { state with store := state.store.addAliases path others }
  | call {count : Counts} {state : State} {call : Call} (options : Options) : Reached count state →
      call.Fits options count state →
      Reached (count.add (call.made options state)) (call.after options state)

namespace Reached

theorem consistent {count : Counts} {state : State} (h : Reached count state) :
    state.store.Consistent count := by
  induction h with
  | initial => exact Store.consistent_empty
  | newArray _ _ ih => exact Store.consistent_allocate ih .index
  | newObject className _ _ ih => exact Store.consistent_allocate ih .field
  | newResource _ ih => exact ⟨ih.nextId, ih.present, ih.stored, ih.aliases⟩
  | write _ hpath hentry ih => exact ih.write hpath hentry
  | addAliases _ hpath hothers ih => exact ih.addAliases hpath hothers
  | call options _ hfits ih => exact (Call.consistent_after ih hfits).1

-- Evaluation leaves all arrays, objects and aliases as they are, and what it makes was never
-- mentioned before.
theorem storage_kept {count : Counts} {state : State} {call : Call} (h : Reached count state)
    (options : Options) (hfits : call.Fits options count state) :
    (∀ c members, state.store.members.get? c = some members →
      (call.after options state).store.members.get? c = some members) ∧
    (call.after options state).store.aliases = state.store.aliases ∧
    ∀ c, state.store.members.get? c = none →
      ((call.after options state).store.members.get? c).isSome →
      ¬c.Within count ∧ ¬state.store.Mentions c ∧ ∀ v ∈ call.operands, ¬v.Mentions c := by
  have hs := h.consistent
  obtain ⟨-, hframe⟩ := Call.consistent_after hs hfits
  refine ⟨fun c members hc => ?_, hframe.aliases, fun c hnone hsome => ?_⟩
  · have hwithin : c.Within count := hs.present c (by rw [hc]; rfl)
    rw [hframe.members c hwithin, hc]
  · have hnew : ¬c.Within count := by
      intro hwithin
      rw [hframe.members c hwithin, hnone] at hsome
      cases hsome
    exact ⟨hnew, fun hc => hnew (hs.within_of_mentions hc),
      fun v hv hc => hnew (hfits.within v hv c hc)⟩

-- An array within the other, at a place with an alias.
def nested : State :=
  ⟨(Store.empty.newArray.2.newArray.2.write (.member (.ofValue (.array 0)) .index (.single "k"))
    (.single (.array 1))).addAliases (.member (.ofValue (.array 0)) .index (.single "k"))
    [.member (.ofValue (.array 1)) .index (.single "m")], []⟩

def twoArrays : Counts :=
  Counts.add (Counts.add (fun _ => 0) (.single .index)) (.single .index)

def sums : Call :=
  .binaryEntry (.single (.array 0)) (.arithmetic .add)
    (.union (.single (.array 0)) (.single (.array 1)))

-- Two sums of arrays, each a new array.
theorem storage_kept_sums :
    Reached twoArrays nested ∧ sums.Fits {} twoArrays nested ∧
    (∀ c members, nested.store.members.get? c = some members →
      (sums.after {} nested).store.members.get? c = some members) ∧
    (sums.after {} nested).store.aliases = nested.store.aliases ∧ nested.store.aliases ≠ [] ∧
    ∀ c ∈ [Container.array 2, Container.array 3], nested.store.members.get? c = none ∧
      ((sums.after {} nested).store.members.get? c).isSome ∧
      ¬c.Within twoArrays ∧ ¬nested.store.Mentions c ∧ ∀ v ∈ sums.operands, ¬v.Mentions c := by
  have harray : ∀ id : UInt32, id.toNat < 2 → (Value.array id).Within twoArrays := by
    rintro id hid c ⟨access, hc⟩
    cases access <;> cases hc
    exact hid
  have hfirst := harray 0 (by decide)
  have hsecond := harray 1 (by decide)
  have hplace : (Path.member (.ofValue (.array 0)) .index (.single "k")).Within twoArrays :=
    Entry.within_single hfirst
  have hother : ∀ other ∈ [Path.member (.ofValue (.array 1)) .index (.single "m")],
      other.Within twoArrays :=
    List.forall_mem_singleton.mpr (Entry.within_single hsecond)
  have harrays : Reached twoArrays ⟨Store.empty.newArray.2.newArray.2, []⟩ :=
    .newArray (.newArray .initial (by decide)) (by decide)
  have hreached : Reached twoArrays nested :=
    (harrays.write hplace (Entry.within_single hsecond)).addAliases hplace hother
  have hfits : sums.Fits {} twoArrays nested := by
    refine ⟨?_, fun access => by cases access <;> decide +kernel⟩
    exact List.forall_mem_cons.mpr ⟨hfirst, Entry.within_union (Entry.within_single hfirst)
      (Entry.within_single hsecond)⟩
  have hadded : ∀ c ∈ [Container.array 2, Container.array 3],
      nested.store.members.get? c = none ∧
        ((sums.after {} nested).store.members.get? c).isSome := by
    decide +kernel
  obtain ⟨hmembers, haliases, hnew⟩ := storage_kept hreached {} hfits
  refine ⟨hreached, hfits, hmembers, haliases, by decide +kernel, fun c hc => ?_⟩
  obtain ⟨hnone, hsome⟩ := hadded c hc
  exact ⟨hnone, hsome, hnew c hnone hsome⟩

end Reached

end AbsEval
