import AbsEval.Conversion.Scalar
import AbsEval.Proofs.Store.Simulation

namespace AbsEval

namespace Heap

def HasMember (heap : Heap) (c : Container) : Prop :=
  ∃ key, (heap.slots c key).isSome

variable {heap : Heap} {c d : Container} {key : String} {x : Value}

theorem hasMember_put : (heap.put d key x).HasMember c ↔ c = d ∨ heap.HasMember c := by
  constructor
  · rintro ⟨k, hk⟩
    by_cases hslot : c = d ∧ k = key
    · exact .inl hslot.1
    · simp only [put, if_neg hslot] at hk
      exact .inr ⟨k, hk⟩
  · rintro (rfl | ⟨k, hk⟩)
    · exact ⟨key, by simp [put]⟩
    · refine ⟨k, ?_⟩
      simp only [put]
      split
      · rfl
      · exact hk

theorem hasMember_clear : (heap.clear d).HasMember c ↔ c ≠ d ∧ heap.HasMember c := by
  by_cases h : c = d <;> simp [HasMember, clear, h]

theorem not_hasMember_empty (c : Container) : ¬Heap.empty.HasMember c := by
  rintro ⟨key, hkey⟩
  cases hkey

theorem hasMember_newArray :
    heap.newArray.HasMember c ↔ c ≠ .array heap.nextArray ∧ heap.HasMember c :=
  @hasMember_clear heap c _

theorem hasMember_newObject :
    heap.newObject.HasMember c ↔ c ≠ .object heap.nextObject ∧ heap.HasMember c :=
  @hasMember_clear heap c _

end Heap

-- A write to members of what stands at the root of its path.
def Command.IsShort : Command → Prop
  | write path _ => ∃ access keys, path.steps = [⟨access, .names keys⟩] ∧ keys ≠ []
  | _ => True

theorem Entry.eq_of_single? {e : Entry} {v w : Value} (h : e.single? = some v)
    (hw : w ∈ e.values) : w = v := by
  unfold Entry.single? at h
  split at h
  · next hvalues =>
    cases h
    rw [hvalues] at hw
    exact List.mem_singleton.mp hw
  · cases h

namespace Store

-- The container that every run of a write goes to: the path without its last step leads to a single
-- value.
def soleTarget? (store : Store) (path : Path) : Option Container :=
  path.parent?.bind fun (parent, step) => (store.read parent).single?.bind step.access.container?

-- Whether a container has a member after every run of a command, given whether it has one before.
def isSure (store : Store) (c : Container) (before : Bool) : Command → Bool
  | .newArray => before && c ≠ .array store.nextArray
  | .newObject _ => before && c ≠ .object store.nextObject
  | .write path _ => before || store.soleTarget? path = some c

def isSureAfter (c : Container) (store : Store) (before : Bool) : List Command → Bool
  | [] => before
  | command :: commands =>
    isSureAfter c (store.perform command) (store.isSure c before command) commands

-- Every key that a run has used is recorded.
def Records (store : Store) (heap : Heap) : Prop :=
  ∀ c key, (heap.slots c key).isSome → key ∈ store.keysAt c

variable {store : Store} {heap next : Heap} {root base entry : Entry} {front : List Step}
  {last : Step} {picks : List Pick} {v w x : Value} {c : Container} {key : String}

-- Past a value without members there is no way back to one with members.
theorem exists_read_dead (steps : List Step) (hw : w ∈ base.values)
    (hdead : ∀ access : Access, access.container? w = none) :
    ∃ u ∈ (store.read ⟨base, steps⟩).values, ∀ access : Access, access.container? u = none := by
  induction steps generalizing base w with
  | nil => exact ⟨w, hw, hdead⟩
  | cons step steps ih =>
    obtain ⟨u, hu, hdead'⟩ := exists_readMember_dead store (hdead step.access)
    exact ih (mem_readStep hw hu) hdead'

-- Where a run of a write goes: to a container that the path leads to, or nowhere if it may lead to
-- none.
theorem assign_cases (hs : store.Agrees) (h : store.Holds heap) (hv : v ∈ root.values)
    (hp : List.Forall₂ Pick.Takes picks (front ++ [last])) (x : Value) :
    ∃ w ∈ (store.read ⟨root, front⟩).values,
      (last.access.container? w = none ∧ heap.assign v picks x = heap) ∨
      ∃ c key, last.access.container? w = some c ∧ last.selector.mayTouch key ∧
        heap.assign v picks x = heap.put c key x := by
  induction front generalizing root v picks with
  | nil =>
    obtain ⟨pick, rest, ⟨haccess, htouch⟩, hrest, rfl⟩ := List.forall₂_cons_right_iff.mp hp
    obtain rfl := List.forall₂_nil_right_iff.mp hrest
    refine ⟨v, hv, ?_⟩
    rw [← haccess]
    cases hc : pick.access.container? v with
    | none => exact .inl ⟨rfl, by simp [Heap.assign, hc]⟩
    | some c => exact .inr ⟨c, pick.key, rfl, htouch, by simp [Heap.assign, hc]⟩
  | cons step front ih =>
    obtain ⟨pick, rest, ⟨haccess, htouch⟩, hrest, rfl⟩ := List.forall₂_cons_right_iff.mp hp
    obtain ⟨second, rest, rfl⟩ : ∃ second tail, rest = second :: tail := by
      cases hrest' : rest with
      | nil =>
        rw [hrest', List.forall₂_nil_left_iff] at hrest
        simp at hrest
      | cons second tail => exact ⟨second, tail, rfl⟩
    cases hc : pick.access.container? v with
    | none =>
      rw [haccess] at hc
      obtain ⟨u, hu, hdead⟩ := exists_readMember_dead store hc
      obtain ⟨w, hw, hdead'⟩ := exists_read_dead front (mem_readStep hv hu) hdead
      exact ⟨w, hw, .inl ⟨hdead' _, by simp [Heap.assign, haccess, hc]⟩⟩
    | some c =>
      have hread := mem_readMember hs (haccess ▸ hc) htouch (h c pick.key)
      obtain ⟨w, hw, hcases⟩ := ih (mem_readStep hv hread) hrest
      simp only [Heap.assign, hc, Option.elim_some]
      exact ⟨w, hw, hcases⟩

theorem mem_keysAt_set {all : Map Container Members} {members : Members} {d : Container} :
    key ∈ ((all.set d members).get? c).elim [] Table.keys ↔
      if c = d then key ∈ members.keys else key ∈ (all.get? c).elim [] Table.keys := by
  split
  · next h =>
    rw [h, Map.get?_set_self]
    rfl
  · next h => rw [Map.get?_set_of_ne _ _ h]

-- One container after the other is written to, and gets the keys that are named.
theorem mem_keysAt_foldl {all : Map Container Members} {containers : List Container}
    {selector : Selector} {replaces : Bool} (hall : Agrees { store with members := all }) :
    key ∈ ((containers.foldl (fun all d => all.set d
        (((all.get? d).getD .empty).write selector replaces entry)) all).get? c).elim [] Table.keys ↔
      key ∈ (all.get? c).elim [] Table.keys ∨ (c ∈ containers ∧ key ∈ selector.keys) := by
  induction containers generalizing all with
  | nil => simp
  | cons d containers ih =>
    have hnext : Agrees { store with
        members := all.set d (((all.get? d).getD .empty).write selector replaces entry) } :=
      hall.set (Members.agrees_write (hall.getD d) selector replaces entry) rfl
    rw [List.foldl_cons, ih hnext, mem_keysAt_set, List.mem_cons]
    by_cases h : c = d
    · subst h
      rw [if_pos rfl, Members.mem_keys_write (hall.getD c), Members.keys_getD]
      tauto
    · rw [if_neg h]
      tauto

theorem mem_keysAt_assign {path : Path} {target : Target} (hs : store.Agrees)
    (ht : store.target? path = some target) :
    key ∈ (store.assign path entry).keysAt c ↔
      key ∈ store.keysAt c ∨ (c ∈ target.containers ∧ key ∈ target.selector.keys) := by
  unfold assign keysAt
  rw [ht]
  exact mem_keysAt_foldl hs

theorem records_assign {steps : List Step} (hs : store.Agrees) (h : store.Holds heap)
    (hr : store.Records heap) (hv : v ∈ root.values) (hp : List.Forall₂ Pick.Takes picks steps)
    (hlast : ∀ step ∈ steps.getLast?, step.selector.isAny = false) :
    (store.assign ⟨root, steps⟩ entry).Records (heap.assign v picks x) := by
  rcases List.eq_nil_or_concat' steps with rfl | ⟨front, last, rfl⟩
  · obtain rfl := List.forall₂_nil_right_iff.mp hp
    exact hr
  · obtain ⟨names, hnames⟩ := Selector.exists_names (hlast last (by simp))
    obtain ⟨w, hw, ⟨-, hheap⟩ | ⟨c, key, hc, htouch, hheap⟩⟩ := assign_cases hs h hv hp x
    · rw [hheap]
      exact fun d k hk => (mem_keysAt_assign hs (target?_append ..)).mpr (.inl (hr d k hk))
    · rw [hheap]
      intro d k hk
      refine (mem_keysAt_assign hs (target?_append ..)).mpr ?_
      by_cases hslot : d = c ∧ k = key
      · obtain ⟨rfl, rfl⟩ := hslot
        refine .inr ⟨List.mem_filterMap.mpr ⟨w, hw, hc⟩, ?_⟩
        simpa [hnames, Selector.mayTouch, Selector.keys] using htouch
      · simp only [Heap.put, if_neg hslot] at hk
        exact .inl (hr d k hk)

theorem hasMember_assign {steps : List Step} (hs : store.Agrees) (h : store.Holds heap)
    (hv : v ∈ root.values)
    (hp : List.Forall₂ Pick.Takes picks steps) (x : Value)
    (hc : heap.HasMember c ∨ store.soleTarget? ⟨root, steps⟩ = some c) :
    (heap.assign v picks x).HasMember c := by
  rcases List.eq_nil_or_concat' steps with rfl | ⟨front, last, rfl⟩
  · obtain rfl := List.forall₂_nil_right_iff.mp hp
    rcases hc with hc | hc
    · exact hc
    · cases hc
  · have hsole : store.soleTarget? ⟨root, front ++ [last]⟩ =
        (store.read ⟨root, front⟩).single?.bind last.access.container? := by
      simp [soleTarget?, Path.parent?]
    rw [hsole] at hc
    obtain ⟨w, hw, hcases⟩ := assign_cases hs h hv hp x
    rcases hc with hc | hc
    · obtain ⟨-, hheap⟩ | ⟨d, key, -, -, hheap⟩ := hcases
      · rwa [hheap]
      · rw [hheap]
        exact Heap.hasMember_put.mpr (.inr hc)
    · -- Every run ends up at the single value that the path leads to.
      obtain ⟨u, hu, huc⟩ := Option.bind_eq_some_iff.mp hc
      rw [← Entry.eq_of_single? hu hw] at huc
      obtain ⟨hnone, -⟩ | ⟨d, key, hd, -, hheap⟩ := hcases
      · rw [huc] at hnone
        cases hnone
      · rw [huc, Option.some.injEq] at hd
        rw [hheap]
        exact Heap.hasMember_put.mpr (.inl hd)

theorem records_clear {following : Store} (h : store.Records heap)
    (hn : following.members = store.members.set c .empty) :
    following.Records (heap.clear c) := by
  intro d key hd
  by_cases hdc : d = c
  · simp [Heap.clear, hdc] at hd
  · simp only [Heap.clear, if_neg hdc] at hd
    unfold keysAt
    rw [hn, Map.get?_set_of_ne _ _ hdc]
    exact h d key hd

theorem records_perform {command : Command} (hs : store.Simulates heap) (h : store.Records heap)
    (hc : command.NamesKeys) (hp : heap.Performs command next) :
    (store.perform command).Records next := by
  cases hp with
  | newArray => exact records_clear h (by simp [perform, newArray, hs.nextArray])
  | newObject className => exact records_clear h (by simp [perform, newObject, hs.nextObject])
  | write hv hpicks hx =>
    rw [perform, write_eq_assign hs.aliases]
    exact records_assign hs.agrees hs.holds h hv hpicks hc

theorem hasMember_perform {command : Command} {before : Bool} (hs : store.Simulates heap)
    (h : before → heap.HasMember c) (hp : heap.Performs command next)
    (hsure : store.isSure c before command) : next.HasMember c := by
  cases hp with
  | newArray =>
    simp only [isSure, ← hs.nextArray, Bool.and_eq_true, decide_eq_true_eq] at hsure
    exact Heap.hasMember_newArray.mpr ⟨hsure.2, h hsure.1⟩
  | newObject className =>
    simp only [isSure, ← hs.nextObject, Bool.and_eq_true, decide_eq_true_eq] at hsure
    exact Heap.hasMember_newObject.mpr ⟨hsure.2, h hsure.1⟩
  | write hv hpicks hx =>
    simp only [isSure, Bool.or_eq_true, decide_eq_true_eq] at hsure
    exact hasMember_assign hs.agrees hs.holds hv hpicks _ (hsure.imp_left h)

theorem performAll_spec {commands : List Command} {final : Heap} {before : Bool}
    (hs : store.Simulates heap) (hr : store.Records heap) (hc : before → heap.HasMember c)
    (hkeys : ∀ command ∈ commands, command.NamesKeys) (hp : heap.PerformsAll commands final) :
    (store.performAll commands).Records final ∧
      (isSureAfter c store before commands → final.HasMember c) := by
  induction hp generalizing store before with
  | nil => exact ⟨hr, hc⟩
  | cons hstep _ ih =>
    obtain ⟨hfirst, hrest⟩ := List.forall_mem_cons.mp hkeys
    exact ih (simulates_perform hs hfirst hstep) (records_perform hs hr hfirst hstep)
      (hasMember_perform hs hc hstep) hrest

theorem isEmptyArray_iff {id : UInt32} :
    store.isEmptyArray id ↔ store.keysAt (.array id) = [] := by
  unfold isEmptyArray keysAt
  cases store.members.get? (.array id) with
  | none => simp
  | some members => simp

theorem eq_array_of_container? {access : Access} {id : UInt32}
    (h : access.container? v = some (.array id)) : v = .array id := by
  cases access <;> cases v <;> cases h
  rfl

-- A short write has a run past the array unless the array is all it can go to.
theorem exists_performs_past (store : Store) (heap : Heap) (id : UInt32) {path : Path}
    (hshort : (Command.write path entry).IsShort) :
    ∃ next, heap.Performs (.write path entry) next ∧
      (store.soleTarget? path ≠ some (.array id) → ¬heap.HasMember (.array id) →
        ¬next.HasMember (.array id)) := by
  obtain ⟨root, steps⟩ := path
  obtain ⟨access, keys, rfl, hkeys⟩ := hshort
  obtain ⟨key, hkey⟩ := List.exists_mem_of_ne_nil keys hkeys
  obtain ⟨x, hx⟩ := List.exists_mem_of_ne_nil _ entry.nonempty
  have hpicks : List.Forall₂ Pick.Takes [⟨access, key⟩] [⟨access, Selector.names keys⟩] :=
    .cons ⟨rfl, by simpa [Selector.mayTouch] using hkey⟩ .nil
  by_cases hpast : ∃ v ∈ root.values, access.container? v ≠ some (.array id)
  · obtain ⟨v, hv, hne⟩ := hpast
    refine ⟨_, .write hv hpicks hx, fun _ hempty => ?_⟩
    simp only [Heap.assign]
    cases hc : access.container? v with
    | none => exact hempty
    | some c =>
      rw [Option.elim_some, Heap.hasMember_put]
      rintro (rfl | hmember)
      · exact hne hc
      · exact hempty hmember
  · have hall : ∀ v ∈ root.values, access.container? v = some (.array id) := by
      simpa using hpast
    obtain ⟨v, rest, hvalues⟩ := List.exists_cons_of_ne_nil root.nonempty
    have hv : v ∈ root.values := by simp [hvalues]
    have hrest : rest = [] := by
      refine List.eq_nil_iff_forall_not_mem.mpr fun u hu => ?_
      have hdistinct := root.distinct
      rw [hvalues, List.nodup_cons] at hdistinct
      have hu' := eq_array_of_container? (hall u (by simp [hvalues, hu]))
      rw [eq_array_of_container? (hall v hv), ← hu'] at hdistinct
      exact hdistinct.1 hu
    refine ⟨_, .write hv hpicks hx, fun hsole => absurd ?_ hsole⟩
    have hsingle : root.single? = some v := by simp [Entry.single?, hvalues, hrest]
    show root.single?.bind access.container? = some (.array id)
    rw [hsingle]
    exact hall v hv

theorem exists_run_past {commands : List Command} {id : UInt32} {before : Bool}
    (hn : heap.nextArray = store.nextArray) (hb : before = false → ¬heap.HasMember (.array id))
    (hshort : ∀ command ∈ commands, command.IsShort) :
    ∃ final, heap.PerformsAll commands final ∧
      (isSureAfter (.array id) store before commands = false → ¬final.HasMember (.array id)) := by
  induction commands generalizing store heap before with
  | nil => exact ⟨heap, .nil heap, hb⟩
  | cons command commands ih =>
    obtain ⟨hfirst, hrest⟩ := List.forall_mem_cons.mp hshort
    suffices hstep : ∃ next, heap.Performs command next ∧
        next.nextArray = (store.perform command).nextArray ∧
        (store.isSure (.array id) before command = false → ¬next.HasMember (.array id)) by
      obtain ⟨next, hnext, harray, hsure⟩ := hstep
      obtain ⟨final, hfinal, hempty⟩ := ih harray hsure hrest
      exact ⟨final, .cons hnext hfinal, hempty⟩
    cases command with
    | newArray =>
      refine ⟨_, .newArray heap, congrArg (· + 1) hn, fun hsure hmember => ?_⟩
      obtain ⟨hne, hmember⟩ := Heap.hasMember_newArray.mp hmember
      rw [hn] at hne
      refine hb ?_ hmember
      simpa [isSure, hne] using hsure
    | newObject className =>
      refine ⟨_, .newObject heap className, hn, fun hsure hmember => ?_⟩
      refine hb ?_ (Heap.hasMember_newObject.mp hmember).2
      simpa [isSure] using hsure
    | write path entry =>
      obtain ⟨next, hnext, hempty⟩ := exists_performs_past store heap id hfirst
      refine ⟨next, hnext, ?_, fun hsure => ?_⟩
      · obtain ⟨members, hstore⟩ := store.write_eq path entry
        cases hnext
        obtain ⟨slots, hheap⟩ := heap.assign_eq _ _ _
        rw [perform, hstore, hheap]
        exact hn
      · simp only [isSure, Bool.or_eq_false_iff, decide_eq_false_iff_not] at hsure
        exact hempty hsure.2 (hb hsure.1)

-- The truth of an array. False is right of every run. True is right if some write is sure to go to
-- the array, and for short writes nothing less will do.
theorem array_truth_of_sure (commands : List Command)
    (hkeys : ∀ command ∈ commands, command.NamesKeys) (id : UInt32) :
    (∀ heap b, Heap.empty.PerformsAll commands heap →
      (Value.array id).toBoolean (Store.empty.performAll commands) = .ok (some b) →
      (b = true → isSureAfter (.array id) .empty false commands) →
      (heap.HasMember (.array id) ↔ b = true)) ∧
    ((∀ command ∈ commands, command.IsShort) →
      isSureAfter (.array id) .empty false commands = false →
      ∃ heap, Heap.empty.PerformsAll commands heap ∧ ¬heap.HasMember (.array id)) := by
  constructor
  · intro heap b hp hb hsure
    have hempty : Store.empty.Records .empty := fun c key hslot => by cases hslot
    obtain ⟨hrecords, hmember⟩ := performAll_spec simulates_empty hempty
      (fun h : false = true => by cases h) hkeys hp
    refine ⟨fun ⟨key, hkey⟩ => ?_, fun h => hmember (hsure h)⟩
    have hkeysAt := hrecords _ _ hkey
    cases hb
    by_contra hfalse
    rw [Bool.not_eq_true, Bool.not_eq_false', isEmptyArray_iff] at hfalse
    rw [hfalse] at hkeysAt
    cases hkeysAt
  · intro hshort hsure
    have hnext : Heap.empty.nextArray = Store.empty.nextArray := rfl
    have hnone : false = false → ¬Heap.empty.HasMember (.array id) :=
      fun _ => Heap.not_hasMember_empty _
    obtain ⟨heap, hp, hempty⟩ := exists_run_past hnext hnone hshort
    exact ⟨heap, hp, hempty hsure⟩

-- One of two arrays gets a member, and then the first of them.
def eitherThenFirst : List Command :=
  [.newArray, .newArray,
    .write ⟨.union (.single (.array 0)) (.single (.array 1)), [⟨.index, .single "k"⟩]⟩
      (.single (.int 1)),
    .write ⟨.single (.array 0), [⟨.index, .single "m"⟩]⟩ (.single (.int 2))]

def onlyFirst : Heap :=
  (Heap.empty.newArray.newArray.assign (.array 0) [⟨.index, "k"⟩] (.int 1)).assign (.array 0)
    [⟨.index, "m"⟩] (.int 2)

theorem performsAll_onlyFirst : Heap.empty.PerformsAll eitherThenFirst onlyFirst := by
  refine .cons (.newArray _) (.cons (.newArray _) (.cons (.write ?_ ?_ ?_) (.cons
    (.write ?_ ?_ ?_) (.nil _)))) <;>
  simp [Pick.Takes, Selector.mayTouch, Selector.single]

theorem array_truth_of_sure_first :
    (∀ command ∈ eitherThenFirst, command.NamesKeys) ∧
      Heap.empty.PerformsAll eitherThenFirst onlyFirst ∧
      (Value.array 0).toBoolean (Store.empty.performAll eitherThenFirst) = .ok (some true) ∧
      isSureAfter (.array 0) .empty false eitherThenFirst ∧
      (onlyFirst.HasMember (.array 0) ↔ true = true) ∧
      (∀ command ∈ eitherThenFirst, command.IsShort) ∧
      isSureAfter (.array 1) .empty false eitherThenFirst = false ∧
      ∃ heap, Heap.empty.PerformsAll eitherThenFirst heap ∧ ¬heap.HasMember (.array 1) := by
  have hkeys : ∀ command ∈ eitherThenFirst, command.NamesKeys := by
    simp [eitherThenFirst, Command.NamesKeys, Selector.isAny, Selector.single]
  have hshort : ∀ command ∈ eitherThenFirst, command.IsShort := by
    simp [eitherThenFirst, Command.IsShort, Selector.single]
  have htruth : (Value.array 0).toBoolean (Store.empty.performAll eitherThenFirst) =
      .ok (some true) := by
    decide +kernel
  have hfirst : isSureAfter (.array 0) .empty false eitherThenFirst := by decide +kernel
  have hsecond : isSureAfter (.array 1) .empty false eitherThenFirst = false := by decide +kernel
  exact ⟨hkeys, performsAll_onlyFirst, htruth, hfirst,
    (array_truth_of_sure _ hkeys 0).1 _ true performsAll_onlyFirst htruth fun _ => hfirst,
    hshort, hsecond, (array_truth_of_sure _ hkeys 1).2 hshort hsecond⟩

-- The second array counts as true, as one of the two has got the key, and is empty in the run that
-- took the first.
theorem array_truth_misses_empty :
    (∀ command ∈ eitherThenFirst, command.NamesKeys) ∧
      Heap.empty.PerformsAll eitherThenFirst onlyFirst ∧
      (Value.array 1).toBoolean (Store.empty.performAll eitherThenFirst) = .ok (some true) ∧
      ¬onlyFirst.HasMember (.array 1) := by
  refine ⟨?_, performsAll_onlyFirst, by decide +kernel, ?_⟩
  · simp [eitherThenFirst, Command.NamesKeys, Selector.isAny, Selector.single]
  · have hput : onlyFirst = ((Heap.empty.newArray.newArray.put (.array 0) "k" (.int 1)).put
        (.array 0) "m" (.int 2)) := rfl
    rw [hput]
    simp [Heap.hasMember_put, Heap.hasMember_newArray, Heap.not_hasMember_empty]

end Store

end AbsEval
