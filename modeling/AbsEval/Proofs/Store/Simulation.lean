import AbsEval.Proofs.Store.Assign
import AbsEval.Proofs.Store.Heap

namespace AbsEval

theorem Selector.exists_names {selector : Selector} (h : selector.isAny = false) :
    ∃ keys, selector = .names keys := by
  cases selector with
  | names keys => exact ⟨keys, rfl⟩
  | any => cases h

namespace Store

-- The store knows of every value in the heap that it may be there.
def Holds (store : Store) (heap : Heap) : Prop :=
  ∀ container key, heap.valueAt container key ∈ store.valuesAt container key

variable {store : Store} {heap : Heap} {base entry : Entry} {step : Step} {steps : List Step}
  {pick : Pick} {picks : List Pick} {v w x : Value} {container : Container} {key : String}

-- If one of the values at the last step has no members, the write merges.
theorem mem_valuesAt_assign_of_dead (hw : w ∈ base.values)
    (hdead : step.access.container? w = none) (hany : step.selector.isAny = false)
    (hx : x ∈ store.valuesAt container key) :
    x ∈ (store.assign ⟨base, [step]⟩ entry).valuesAt container key := by
  obtain ⟨keys, hkeys⟩ := Selector.exists_names hany
  have ht := target?_singleton store base step
  have hreplaces : ¬(base.count = 1 ∧
      (base.values.filterMap step.access.container?).length = 1) := by
    rintro ⟨hcount, hlength⟩
    obtain ⟨u, hu⟩ := List.length_eq_one_iff.mp hcount
    rw [hu, List.mem_singleton] at hw
    subst hw
    simp [hu, hdead] at hlength
  refine (mem_valuesAt_assign_merge ht hkeys ?_).mpr (.inl hx)
  simp only [Bool.and_assoc, Bool.and_eq_false_imp, beq_iff_eq, beq_eq_false_iff_ne]
  intro _ hcount hlength
  exact hreplaces ⟨hcount, hlength⟩

-- So a write through a path that leads nowhere keeps what is known.
theorem mem_valuesAt_assign_of_stuck (hw : w ∈ base.values)
    (hdead : ∀ access : Access, access.container? w = none)
    (hlast : ∀ step ∈ steps.getLast?, step.selector.isAny = false)
    (hx : x ∈ store.valuesAt container key) :
    x ∈ (store.assign ⟨base, steps⟩ entry).valuesAt container key := by
  induction steps generalizing base w with
  | nil => exact hx
  | cons step steps ih =>
    cases steps with
    | nil => exact mem_valuesAt_assign_of_dead hw (hdead _) (hlast step (by simp)) hx
    | cons next rest =>
      obtain ⟨u, hu, hdead'⟩ := exists_readMember_dead store (hdead step.access)
      rw [assign_cons]
      exact ih (mem_readStep hw hu) hdead' (by simpa using hlast)

-- The last step. A write replaces only where every run writes.
theorem holds_assign_single (h : store.Holds heap) (hv : v ∈ base.values) (hp : pick.Takes step)
    (hany : step.selector.isAny = false) (hx : x ∈ entry.values) :
    (store.assign ⟨base, [step]⟩ entry).Holds (heap.assign v [pick] x) := by
  obtain ⟨haccess, htouch⟩ := hp
  intro container key
  cases hc : pick.access.container? v with
  | none =>
    rw [haccess] at hc
    simpa only [Heap.assign, haccess, hc, Option.elim_none] using
      mem_valuesAt_assign_of_dead hv hc hany (h container key)
  | some other =>
    obtain ⟨keys, hkeys⟩ := Selector.exists_names hany
    have ht := target?_singleton store base step
    rw [haccess] at hc
    simp only [hkeys, Selector.mayTouch, decide_eq_true_eq] at htouch
    simp only [Heap.assign, haccess, hc, Option.elim_some, Heap.valueAt_put]
    have hmem : other ∈ base.values.filterMap step.access.container? :=
      List.mem_filterMap.mpr ⟨v, hv, hc⟩
    by_cases hr : keys.length = 1 ∧ base.count = 1 ∧
        (base.values.filterMap step.access.container?).length = 1
    · obtain ⟨hk, hcount, hlength⟩ := hr
      obtain ⟨name, rfl⟩ := List.length_eq_one_iff.mp hk
      obtain rfl : pick.key = name := List.mem_singleton.mp htouch
      obtain ⟨sole, hsole⟩ := List.length_eq_one_iff.mp hlength
      obtain rfl : other = sole := by simpa [hsole] using hmem
      rw [valuesAt_assign_replace ht hkeys hsole (by simp [hkeys, Selector.keys, hcount, hlength])]
      split
      · exact hx
      · exact h container key
    · rw [mem_valuesAt_assign_merge ht hkeys (by simpa [hkeys, Selector.keys] using hr)]
      split
      · next hslot =>
        obtain ⟨rfl, rfl⟩ := hslot
        exact .inr ⟨hmem, htouch, hx⟩
      · exact .inl (h container key)

-- A run of a write is followed by the store.
theorem holds_assign (hs : store.Agrees) (h : store.Holds heap) (hv : v ∈ base.values)
    (hp : List.Forall₂ Pick.Takes picks steps)
    (hlast : ∀ step ∈ steps.getLast?, step.selector.isAny = false) (hx : x ∈ entry.values) :
    (store.assign ⟨base, steps⟩ entry).Holds (heap.assign v picks x) := by
  induction hp generalizing base v with
  | nil => exact h
  | @cons pick step picks steps hpick hpicks ih =>
    cases hpicks with
    | nil => exact holds_assign_single h hv hpick (hlast step (by simp)) hx
    | @cons pick' next picks' rest hpick' hpicks' =>
      rw [assign_cons]
      cases hc : pick.access.container? v with
      | none =>
        rw [hpick.1] at hc
        obtain ⟨w, hw, hdead⟩ := exists_readMember_dead store hc
        intro container key
        simp only [Heap.assign, hpick.1, hc, Option.elim_none]
        exact mem_valuesAt_assign_of_stuck (mem_readStep hv hw) hdead (by simpa using hlast)
          (h container key)
      | some container =>
        simp only [Heap.assign, hc, Option.elim_some]
        rw [hpick.1] at hc
        have hread := mem_readMember hs hc hpick.2 (h container pick.key)
        exact ih (mem_readStep hv hread) (by simpa using hlast)

-- A new container starts without members on both sides.
theorem holds_clear {next : Store} (h : store.Holds heap)
    (hn : next.members = store.members.set container .empty) :
    next.Holds (heap.clear container) := by
  intro other key
  rw [Heap.valueAt_clear]
  split
  · next hc =>
    simp [valuesAt, hn, hc, Map.get?_set_self, Members.valuesAt, Table.get?_empty]
  · next hc =>
    have hget : next.members.get? other = store.members.get? other := by
      rw [hn, Map.get?_set_of_ne _ _ hc]
    rw [valuesAt_of_members hget]
    exact h other key

-- What holds between a store without aliases and the heap of a run.
structure Simulates (store : Store) (heap : Heap) : Prop where
  agrees : store.Agrees
  holds : store.Holds heap
  nextArray : heap.nextArray = store.nextArray
  nextObject : heap.nextObject = store.nextObject
  aliases : store.aliases = []

theorem simulates_empty : Store.empty.Simulates .empty where
  agrees c members hc := by cases hc
  holds container key := by
    simp [Heap.valueAt, Heap.empty, valuesAt, Store.empty, Map.get?_empty]
  nextArray := rfl
  nextObject := rfl
  aliases := rfl

theorem simulates_perform {command : Command} {next : Heap} (h : store.Simulates heap)
    (hc : command.NamesKeys) (hp : heap.Performs command next) :
    (store.perform command).Simulates next := by
  cases hp with
  | newArray =>
    have hholds : store.newArray.2.Holds (heap.clear (.array heap.nextArray)) :=
      holds_clear h.holds (by simp [newArray, h.nextArray])
    exact ⟨h.agrees.set Table.agrees_empty rfl, hholds, congrArg (· + 1) h.nextArray, h.nextObject,
      h.aliases⟩
  | newObject className =>
    have hholds : (store.newObject className).2.Holds (heap.clear (.object heap.nextObject)) :=
      holds_clear h.holds (by simp [newObject, h.nextObject])
    exact ⟨h.agrees.set Table.agrees_empty rfl, hholds, h.nextArray,
      congrArg (· + 1) h.nextObject, h.aliases⟩
  | @write path entry v x picks hv hpicks hx =>
    obtain ⟨root, steps⟩ := path
    have hagrees := h.agrees.assign ⟨root, steps⟩ entry
    have hholds := holds_assign h.agrees h.holds hv hpicks hc hx
    obtain ⟨members, hstore⟩ := store.assign_eq ⟨root, steps⟩ entry
    obtain ⟨slots, hheap⟩ := heap.assign_eq v picks x
    simp only [perform, write_eq_assign h.aliases, hstore, hheap] at hagrees hholds ⊢
    exact ⟨hagrees, hholds, h.nextArray, h.nextObject, h.aliases⟩

theorem simulates_performAll {commands : List Command} {last : Heap} (h : store.Simulates heap)
    (hc : ∀ command ∈ commands, command.NamesKeys) (hp : heap.PerformsAll commands last) :
    (store.performAll commands).Simulates last := by
  induction hp generalizing store with
  | nil => exact h
  | cons hstep _ ih =>
    obtain ⟨hfirst, hrest⟩ := List.forall_mem_cons.mp hc
    exact ih (simulates_perform h hfirst hstep) hrest

-- Reading a member finds what any run has left there, if all writes name their keys.
theorem valueAt_mem_read {commands : List Command} {heap : Heap} {access : Access} {v : Value}
    {container : Container} (key : String) (hc : ∀ command ∈ commands, command.NamesKeys)
    (hp : Heap.empty.PerformsAll commands heap) (hv : access.container? v = some container) :
    heap.valueAt container key ∈
      ((Store.empty.performAll commands).read
        ((Path.ofValue v).member access (.single key))).values :=
  (mem_read_member hv).mpr ((simulates_performAll simulates_empty hc hp).holds container key)

-- The second array is put at one of two keys of the first, and then written to through one of them.
def throughEither : List Command :=
  [.newArray, .newArray,
    .write ⟨.single (.array 0), [⟨.index, .names ["a", "b"]⟩]⟩ (.single (.array 1)),
    .write ⟨.single (.array 0), [⟨.index, .single "a"⟩, ⟨.index, .single "x"⟩]⟩ (.single (.int 5))]

-- In the run through the other key the last write is lost.
def missed : Heap :=
  (Heap.empty.newArray.newArray.assign (.array 0) [⟨.index, "b"⟩] (.array 1)).assign (.array 0)
    [⟨.index, "a"⟩, ⟨.index, "x"⟩] (.int 5)

theorem valueAt_missed_mem_read :
    (∀ command ∈ throughEither, command.NamesKeys) ∧ Heap.empty.PerformsAll throughEither missed ∧
      missed.valueAt (.array 1) "x" = .null ∧
      Value.null ∈ ((Store.empty.performAll throughEither).read
        ((Path.ofValue (.array 1)).member .index (.single "x"))).values := by
  have hkeys : ∀ command ∈ throughEither, command.NamesKeys := by
    simp [throughEither, Command.NamesKeys, Selector.isAny, Selector.single]
  have hrun : Heap.empty.PerformsAll throughEither missed := by
    refine .cons (.newArray _) (.cons (.newArray _) (.cons (.write ?_ ?_ ?_) (.cons
      (.write ?_ ?_ ?_) (.nil _)))) <;>
    simp [Pick.Takes, Selector.mayTouch, Selector.single]
  have hlost : missed.valueAt (.array 1) "x" = .null := rfl
  have hcontainer : Access.index.container? (.array 1) = some (.array 1) := rfl
  exact ⟨hkeys, hrun, hlost, hlost ▸ valueAt_mem_read "x" hkeys hrun hcontainer⟩

end Store

end AbsEval
