import AbsEval.Proofs.Store.Bookkeeping
import Mathlib.Data.Fintype.EquivFin
import Mathlib.Data.List.Forall2

namespace AbsEval

-- One of the keys that a step may reach, in place of all of them.
def Step.Narrows (narrow wide : Step) : Prop :=
  ∃ key, wide.selector.mayTouch key ∧ narrow = ⟨wide.access, .single key⟩

-- Some of the values that a path starts from, and one key at each of its steps.
structure Path.Narrows (narrow wide : Path) : Prop where
  root : narrow.root.values ⊆ wide.root.values
  steps : List.Forall₂ Step.Narrows narrow.steps wide.steps

namespace Step

variable {narrow wide : Step} {steps steps' : List Step}

theorem Narrows.self (h : narrow.Narrows wide) : narrow.Narrows narrow := by
  obtain ⟨key, -, rfl⟩ := h
  exact ⟨key, decide_eq_true (List.mem_singleton_self key), rfl⟩

theorem forall₂_narrows_self (h : List.Forall₂ Narrows steps steps') :
    List.Forall₂ Narrows steps steps := by
  induction h with
  | nil => exact .nil
  | cons hstep _ ih => exact .cons hstep.self ih

end Step

theorem Entry.single_subset {e : Entry} {v : Value} (h : v ∈ e.values) :
    (single v).values ⊆ e.values :=
  List.cons_subset.mpr ⟨h, List.nil_subset _⟩

-- Whatever is found through a selector is found at a key that it may touch. For an unknown key,
-- null is found at one that is not there.
theorem Members.exists_mem_valuesAt {members : Members} {selector : Selector} {v : Value}
    (h : members.Agrees) (hv : v ∈ members.read selector) :
    ∃ key, selector.mayTouch key ∧ v ∈ members.valuesAt key := by
  cases selector with
  | names keys =>
    obtain ⟨key, hkey, hv⟩ := List.mem_flatMap.mp hv
    exact ⟨key, decide_eq_true hkey, hv⟩
  | any =>
    rcases List.mem_append.mp hv with hv | hv
    · obtain ⟨row, hrow, hv⟩ := List.mem_flatMap.mp hv
      refine ⟨row.1, rfl, ?_⟩
      rwa [valuesAt, Table.get?_of_mem_rows hrow]
    · obtain ⟨key, hkey⟩ := Infinite.exists_notMem_finset members.keys.toFinset
      refine ⟨key, rfl, ?_⟩
      have hnone : members.get? key = none :=
        Option.not_isSome_iff_eq_none.mp (mt h.mem_keys_iff.mpr (mt List.mem_toFinset.mpr hkey))
      rwa [valuesAt, hnone]

namespace Store

variable {store : Store} {narrow wide : Step} {base base' : Entry} {v w : Value}

-- A single key always finds something.
theorem readMember_ne_nil (h : narrow.Narrows wide) : store.readMember narrow v ≠ [] := by
  obtain ⟨key, -, rfl⟩ := h
  cases hc : wide.access.container? v with
  | none =>
    obtain ⟨w, hw, -⟩ := @exists_readMember_dead ⟨wide.access, .single key⟩ v store hc
    exact List.ne_nil_of_mem hw
  | some container =>
    rw [readMember_single hc, valuesAt_eq]
    exact Entry.nonempty _

-- The key matters only among the members of a container.
theorem readMember_of_no_container {access : Access} (hc : access.container? v = none)
    (selector selector' : Selector) :
    store.readMember ⟨access, selector⟩ v = store.readMember ⟨access, selector'⟩ v := by
  simp only [readMember, hc]

theorem readMember_subset (hs : store.Agrees) (h : narrow.Narrows wide) :
    store.readMember narrow v ⊆ store.readMember wide v := by
  obtain ⟨key, hkey, rfl⟩ := h
  intro w hw
  cases hc : wide.access.container? v with
  | none => rwa [readMember_of_no_container hc _ wide.selector] at hw
  | some container =>
    rw [readMember_single hc] at hw
    exact mem_readMember hs hc hkey hw

theorem exists_narrows_of_mem_readMember (hs : store.Agrees) (h : narrow.Narrows wide)
    (hw : w ∈ store.readMember wide v) :
    ∃ step, step.Narrows wide ∧ w ∈ store.readMember step v := by
  obtain ⟨access, selector⟩ := wide
  obtain ⟨touched, htouched, -⟩ := h
  cases hc : access.container? v with
  | none =>
    refine ⟨_, ⟨touched, htouched, rfl⟩, ?_⟩
    rwa [readMember_of_no_container hc _ selector]
  | some container =>
    suffices hkey : ∃ key, selector.mayTouch key ∧ w ∈ store.valuesAt container key by
      obtain ⟨key, hkey, hw⟩ := hkey
      refine ⟨_, ⟨key, hkey, rfl⟩, ?_⟩
      rwa [readMember_single hc]
    simp only [readMember, hc] at hw
    unfold valuesAt
    cases hget : store.members.get? container with
    | none =>
      rw [hget] at hw
      exact ⟨touched, htouched, hw⟩
    | some members =>
      rw [hget] at hw
      exact Members.exists_mem_valuesAt (hs container members hget) hw

-- Where one key can be named, nothing has to stand in for what is found.
theorem mem_readStep_iff (hs : store.Agrees) (h : narrow.Narrows wide) :
    w ∈ (store.readStep base wide).values ↔ ∃ v ∈ base.values, w ∈ store.readMember wide v := by
  have hfound : base.values.flatMap (store.readMember wide) ≠ [] := by
    obtain ⟨v, rest, hv⟩ := List.exists_cons_of_ne_nil base.nonempty
    have hne : store.readMember wide v ≠ [] := fun hnil =>
      readMember_ne_nil h (List.subset_nil.mp (hnil ▸ readMember_subset hs h))
    rw [hv, List.flatMap_cons]
    exact List.append_ne_nil_of_left_ne_nil hne _
  simp only [readStep, Entry.ofList?, dif_pos hfound, Option.getD_some, Entry.mem_ofNonempty,
    List.mem_flatMap]

theorem readStep_subset (hs : store.Agrees) (hbase : base'.values ⊆ base.values)
    (h : narrow.Narrows wide) :
    (store.readStep base' narrow).values ⊆ (store.readStep base wide).values := by
  intro w hw
  obtain ⟨v, hv, hw⟩ := (mem_readStep_iff hs h.self).mp hw
  exact mem_readStep (hbase hv) (readMember_subset hs h hw)

-- The induction is on the steps, and the entry reached so far takes the place of the root.
theorem read_subset {steps steps' : List Step} (hs : store.Agrees)
    (hbase : base'.values ⊆ base.values) (hsteps : List.Forall₂ Step.Narrows steps' steps) :
    (store.read ⟨base', steps'⟩).values ⊆ (store.read ⟨base, steps⟩).values := by
  induction hsteps generalizing base base' with
  | nil => exact hbase
  | cons hstep _ ih => exact ih (readStep_subset hs hbase hstep)

-- The first step has to be chosen so that it finds what the others start from.
theorem exists_narrows_of_mem_read {steps : List Step} (hs : store.Agrees)
    (htouch : ∀ step ∈ steps, ∃ narrow : Step, narrow.Narrows step)
    (hw : w ∈ (store.read ⟨base, steps⟩).values) :
    ∃ v ∈ base.values, ∃ steps', List.Forall₂ Step.Narrows steps' steps ∧
      w ∈ (store.read ⟨.single v, steps'⟩).values := by
  induction steps generalizing base with
  | nil => exact ⟨w, hw, [], .nil, List.mem_singleton_self w⟩
  | cons step steps ih =>
    obtain ⟨⟨narrow, hnarrow⟩, hrest⟩ := List.forall_mem_cons.mp htouch
    obtain ⟨u, hu, steps', hsteps, hw⟩ := ih hrest hw
    obtain ⟨v, hv, hu⟩ := (mem_readStep_iff hs hnarrow).mp hu
    obtain ⟨first, hfirst, hu⟩ := exists_narrows_of_mem_readMember hs hnarrow hu
    have hreached : (Entry.single u).values ⊆ (store.readStep (.single v) first).values :=
      Entry.single_subset (mem_readStep (List.mem_singleton_self v) hu)
    refine ⟨v, hv, first :: steps', .cons hfirst hsteps, ?_⟩
    exact read_subset hs hreached (Step.forall₂_narrows_self hsteps) hw

-- As both copies of the keys agree, whatever is found on a narrower path is found on the wider one.
-- Nothing else is found there, if each of its steps may reach a key at all.
theorem read_covers_narrows {store : Store} (hs : store.Agrees) (wide : Path) :
    (∀ narrow : Path, narrow.Narrows wide →
      (store.read narrow).values ⊆ (store.read wide).values) ∧
    ((∀ step ∈ wide.steps, ∃ key, step.selector.mayTouch key) →
      ∀ w ∈ (store.read wide).values, ∃ narrow : Path, narrow.Narrows wide ∧
        (∃ v, narrow.root = .single v) ∧ w ∈ (store.read narrow).values) := by
  refine ⟨fun narrow h => read_subset hs h.root h.steps, fun htouch w hw => ?_⟩
  have hnarrows : ∀ step ∈ wide.steps, ∃ narrow : Step, narrow.Narrows step := by
    intro step hstep
    obtain ⟨key, hkey⟩ := htouch step hstep
    exact ⟨_, key, hkey, rfl⟩
  obtain ⟨v, hv, steps, hsteps, hw⟩ := exists_narrows_of_mem_read hs hnarrows hw
  exact ⟨⟨.single v, steps⟩, ⟨Entry.single_subset hv, hsteps⟩, ⟨v, rfl⟩, hw⟩

-- The member of one array is another array or a text.
def arrayOrText : Store :=
  (Store.empty.newArray.2.newArray.2.write (.member (.ofValue (.array 0)) .index (.single "k"))
    (.union (.single (.array 1)) (.single (.str "t")))).write
      (.member (.ofValue (.array 1)) .index (.single "m")) (.single (.int 5))

def throughAny : Path :=
  ⟨.union (.single .null) (.single (.array 0)), [⟨.index, .any⟩, ⟨.index, .names ["n", "m"]⟩]⟩

def throughKeys : Path :=
  ⟨.single (.array 0), [⟨.index, .single "k"⟩, ⟨.index, .single "m"⟩]⟩

theorem read_covers_arrayOrText :
    arrayOrText.Agrees ∧
    (throughKeys.Narrows throughAny ∧
      (arrayOrText.read throughKeys).values = [.int 5, .any .string] ∧
      (arrayOrText.read throughKeys).values ⊆ (arrayOrText.read throughAny).values) ∧
    (∀ step ∈ throughAny.steps, ∃ key, step.selector.mayTouch key) ∧
    (arrayOrText.read throughAny).values = [.null, .int 5, .any .string] ∧
    ∀ w ∈ (arrayOrText.read throughAny).values, ∃ narrow : Path, narrow.Narrows throughAny ∧
      (∃ v, narrow.root = .single v) ∧ w ∈ (arrayOrText.read narrow).values := by
  have hnarrows : throughKeys.Narrows throughAny :=
    ⟨by decide, .cons ⟨"k", rfl, rfl⟩ (.cons ⟨"m", by decide, rfl⟩ .nil)⟩
  have hs : arrayOrText.Agrees :=
    ((((wellFormed_empty.allocate .index).allocate .index).write _ _).write _ _).agrees
  have htouch : ∀ step ∈ throughAny.steps, ∃ key, step.selector.mayTouch key :=
    List.forall_mem_cons.mpr ⟨⟨"k", rfl⟩, List.forall_mem_singleton.mpr ⟨"m", by decide⟩⟩
  obtain ⟨hsubset, hnothing⟩ := read_covers_narrows hs throughAny
  exact ⟨hs, ⟨hnarrows, by decide, hsubset _ hnarrows⟩, htouch, by decide, hnothing htouch⟩

end Store

end AbsEval
