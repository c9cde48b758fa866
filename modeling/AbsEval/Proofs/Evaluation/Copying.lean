import AbsEval.Proofs.Evaluation.Invariant
import AbsEval.Proofs.Store.Copying

namespace AbsEval

theorem Reached.arrives {count : Counts} {state : State} (h : Reached count state) :
    Arrives state := by
  induction h with
  | initial => exact .initial
  | newArray _ _ ih => exact ih.newArray
  | newObject className _ _ ih => exact ih.newObject className
  | newResource _ ih => exact ih.newResource
  | write _ _ _ ih => exact ih.write _ _
  | addAliases _ _ _ ih => exact ih.addAliases _ _
  | call options _ _ ih => exact ih.call options _

namespace Eval

-- An evaluation gives a container that was neither made nor mentioned before and that has these
-- members afterwards. What was in use stays as it is.
structure Yields (count : Counts) (options : Options) (state : State) (x : Eval Value) (v : Value)
    (members : Members) : Prop where
  result : (x.run options state).1 = .ok v
  made : ∃ c, v.Mentions c ∧ ¬c.Within count ∧ ¬state.store.Mentions c ∧
    state.store.members.get? c = none ∧
    (x.run options state).2.store.members.get? c = some members
  frame : Store.Frame count state.store (x.run options state).2.store

variable {count : Counts} {options : Options} {state : State} {access : Access} {x : Eval Value}
  {v : Value} {members : Members}

-- All that such an evaluation does is to make the container with its members.
theorem yields_of_made {made : Value × Store} (h : state.store.Consistent count)
    (hroom : count access < 2 ^ 32) (hv : access.container? v = some (state.store.next access))
    (hmade : made = (v, state.store.allocateWith access members))
    (hrun : x.run options state = (.ok made.1, { state with store := made.2 })) :
    x.Yields count options state v members := by
  have hnew := Store.not_within_next h hroom
  have habsent := (Store.fresh_of_consistent h hroom hv).absent
  rw [hmade] at hrun
  constructor
  · rw [hrun]
  · refine ⟨state.store.next access, ⟨access, hv⟩, hnew, mt h.within_of_mentions hnew, habsent, ?_⟩
    rw [hrun]
    exact state.store.get?_allocateWith_next access members
  · rw [hrun]
    exact Store.frame_allocateWith h hroom members

theorem run_sum_arrays (left right : UInt32) (hunion : options.materializeArrayUnion) :
    (binary (.array left) (.arithmetic .add) (.array right)).run options state =
      (.ok (state.store.unionArrays (.array left) (.array right)).1,
        { state with store := (state.store.unionArrays (.array left) (.array right)).2 }) := by
  obtain ⟨canonical, warns, materializes⟩ := options
  subst hunion
  rfl

theorem yields_toObject_array (id : UInt32) (h : state.store.Consistent count)
    (hs : state.store.WellFormed) (hroom : count .field < 2 ^ 32) :
    (toObject (.array id)).Yields count options state
      (.object state.store.nextObject Store.standardClass)
      (state.store.membersOf (.array id)) :=
  yields_of_made h hroom rfl
    (Store.toObject_array id hs (Store.fresh_of_consistent h hroom rfl)) rfl

theorem yields_toArray_object (id : UInt32) (className : String) (h : state.store.Consistent count)
    (hs : state.store.WellFormed) (hroom : count .index < 2 ^ 32) :
    (toArray (.object id className)).Yields count options state (.array state.store.nextArray)
      (state.store.membersOf (.object id)) :=
  yields_of_made h hroom rfl
    (Store.toArray_object id className hs (Store.fresh_of_consistent h hroom rfl)) rfl

-- What is new after another container was made was new before.
theorem Yields.bind {f : Value → Eval Value} {w : Value} {members' : Members}
    (hx : x.Yields count options state v members) (h : state.store.Consistent count)
    (made : Counts)
    (hf : (f v).Yields (count.add made) options (x.run options state).2 w members') :
    (x >>= f).Yields count options state w members' := by
  have hrun : (x >>= f).run options state = (f v).run options (x.run options state).2 :=
    run_bind_ok options state (Prod.ext hx.result rfl)
  obtain ⟨c, hc, hnew, -, -, hmembers⟩ := hf.made
  have hunused : ¬c.Within count := fun hwithin => hnew (Container.within_add hwithin)
  constructor
  · rw [hrun, hf.result]
  · refine ⟨c, hc, hunused, mt h.within_of_mentions hunused, ?_, hrun ▸ hmembers⟩
    exact Option.not_isSome_iff_eq_none.mp (mt (h.present c) hunused)
  · rw [hrun]
    exact hx.frame.trans hf.frame

-- An object with the members of an array has them again as an array.
theorem yields_toObject_toArray (id : UInt32) (h : state.store.Consistent count)
    (hs : state.store.WellFormed) (hroom : ∀ access, count access < 2 ^ 32) :
    (toObject (.array id) >>= toArray).Yields count options state (.array state.store.nextArray)
      (state.store.membersOf (.array id)) := by
  have hfresh : state.store.Fresh .field (.object state.store.nextObject Store.standardClass) :=
    Store.fresh_of_consistent h (hroom .field) rfl
  have hnext : ((toObject (.array id)).run options state).2.store =
      state.store.allocateWith .field (state.store.membersOf (.array id)) :=
    congrArg Prod.snd (Store.toObject_array id hs hfresh)
  refine (yields_toObject_array id h hs (hroom .field)).bind h (.single .field) ?_
  generalize ((toObject (.array id)).run options state).2 = next at hnext ⊢
  have hconsistent : next.store.Consistent (count.add (.single .field)) :=
    hnext ▸ Store.consistent_allocateWith h .field (h.within_getD _)
  have hwellFormed : next.store.WellFormed :=
    hnext ▸ Store.wellFormed_allocateWith hs .field (hs.agrees.getD _)
  have hmembers : next.store.membersOf (.object state.store.nextObject) =
      state.store.membersOf (.array id) := by
    rw [hnext]
    exact state.store.membersOf_allocateWith_next .field _
  have hid : next.store.nextArray = state.store.nextArray := by
    rw [hnext]
    rfl
  rw [← hmembers, ← hid]
  exact yields_toArray_object _ _ hconsistent hwellFormed (hroom .index)

-- Copies have the members of what they are copied from, in the same order.
theorem copies_exact (h : Reached count state) (hroom : ∀ access, count access < 2 ^ 32)
    (options : Options) :
    (∀ id, (toObject (.array id)).Yields count options state
      (.object state.store.nextObject "stdClass") (state.store.membersOf (.array id))) ∧
    (∀ id className, (toArray (.object id className)).Yields count options state
      (.array state.store.nextArray) (state.store.membersOf (.object id))) ∧
    (∀ id className, (unary .clone (.object id className)).Yields count options state
      (.object state.store.nextObject className) (state.store.membersOf (.object id))) ∧
    (options.materializeArrayUnion → ∀ left right,
      (binary (.array left) (.arithmetic .add) (.array right)).Yields count options state
        (.array state.store.nextArray)
        ((state.store.membersOf (.array left)).orElse (state.store.membersOf (.array right)))) ∧
    ∀ id, (toObject (.array id) >>= toArray).Yields count options state
      (.array state.store.nextArray) (state.store.membersOf (.array id)) := by
  have hs := h.arrives.wellFormed
  have hconsistent := h.consistent
  refine ⟨fun id => yields_toObject_array id hconsistent hs (hroom .field),
    fun id className => yields_toArray_object id className hconsistent hs (hroom .index),
    fun id className => ?_, fun hunion left right => ?_,
    fun id => yields_toObject_toArray id hconsistent hs hroom⟩
  · have hfresh : state.store.Fresh .field (.object state.store.nextObject className) :=
      Store.fresh_of_consistent hconsistent (hroom .field) rfl
    exact yields_of_made hconsistent (hroom .field) rfl
      (Store.cloneObject_eq id className hs hfresh) rfl
  · have hfresh : state.store.Fresh .index (.array state.store.nextArray) :=
      Store.fresh_of_consistent hconsistent (hroom .index) rfl
    exact yields_of_made hconsistent (hroom .index) rfl
      (Store.unionArrays_eq left right hs hfresh) (run_sum_arrays left right hunion)

-- An array that may be a member of itself, and another that has one more key.
def overlapping : State :=
  ⟨((Store.empty.newArray.2.newArray.2.write (.member (.ofValue (.array 0)) .index (.single "a"))
    (.union (.single (.array 0)) (.single (.int 5)))).write
      (.member (.ofValue (.array 1)) .index (.single "b")) (.single .null)).write
        (.member (.ofValue (.array 1)) .index (.single "a")) (.single (.int 7)), []⟩

theorem copies_exact_overlapping :
    Reached Reached.twoArrays overlapping ∧ (∀ access, Reached.twoArrays access < 2 ^ 32) ∧
    (binary (.array 0) (.arithmetic .add) (.array 1)).Yields Reached.twoArrays {} overlapping
      (.array 2)
      (.ofRows [("a", .union (.single (.array 0)) (.single (.int 5))), ("b", .single .null)]) := by
  have harray : ∀ id : UInt32, id.toNat < 2 → (Value.array id).Within Reached.twoArrays := by
    rintro id hid c ⟨access, hc⟩
    cases access <;> cases hc
    exact hid
  have hint : ∀ n, (Value.int n).Within Reached.twoArrays := by
    rintro n c ⟨access, hc⟩
    cases access <;> cases hc
  have hplace : ∀ (id : UInt32) (key : String), id.toNat < 2 →
      (Path.member (.ofValue (.array id)) .index (.single key)).Within Reached.twoArrays :=
    fun id _ hid => Entry.within_single (harray id hid)
  have hroom : ∀ access, Reached.twoArrays access < 2 ^ 32 := by
    intro access
    cases access <;> decide
  have harrays : Reached Reached.twoArrays ⟨Store.empty.newArray.2.newArray.2, []⟩ :=
    .newArray (.newArray .initial (by decide)) (by decide)
  have hentry : (Entry.union (.single (.array 0)) (.single (.int 5))).Within Reached.twoArrays :=
    Entry.within_union (Entry.within_single (harray 0 (by decide))) (Entry.within_single (hint 5))
  have hreached : Reached Reached.twoArrays overlapping :=
    ((harrays.write (hplace 0 "a" (by decide)) hentry).write (hplace 1 "b" (by decide))
      (Entry.within_single Value.within_null)).write (hplace 1 "a" (by decide))
        (Entry.within_single (hint 7))
  have hmembers : (overlapping.store.membersOf (.array 0)).orElse
      (overlapping.store.membersOf (.array 1)) =
        .ofRows [("a", .union (.single (.array 0)) (.single (.int 5))), ("b", .single .null)] := by
    decide
  exact ⟨hreached, hroom, hmembers ▸ (copies_exact hreached hroom {}).2.2.2.1 rfl 0 1⟩

end Eval

end AbsEval
