import AbsEval.Proofs.Store.Bookkeeping

namespace AbsEval

-- The keys in their order, and behind them only keys that were not there.
def Extends (keys keys' : List String) : Prop :=
  ∃ added, keys' = keys ++ added ∧ ∀ key ∈ added, key ∉ keys

namespace Extends

variable {keys keys' keys'' : List String}

theorem refl (keys : List String) : Extends keys keys :=
  ⟨[], (List.append_nil keys).symm, fun _ hkey => by cases hkey⟩

theorem trans (h : Extends keys keys') (k : Extends keys' keys'') : Extends keys keys'' := by
  obtain ⟨added, rfl, hadded⟩ := h
  obtain ⟨more, rfl, hmore⟩ := k
  refine ⟨added ++ more, List.append_assoc _ _ _, fun key hkey => ?_⟩
  rcases List.mem_append.mp hkey with hkey | hkey
  · exact hadded key hkey
  · exact fun hold => hmore key hkey (List.mem_append_left _ hold)

end Extends

-- One key of one array or object.
def Path.IsPlace (path : Path) : Prop :=
  ∃ (v : Value) (access : Access) (key : String), (access.container? v).isSome ∧
    path = (Path.ofValue v).member access (.single key)

namespace Members

variable {members : Members} {selector : Selector} {replaces : Bool} {key : String} {entry : Entry}

theorem extends_set (h : members.Agrees) (key : String) (entry : Entry) :
    Extends members.keys (Table.keys (members.set key entry)) := by
  show Extends members.keys
    (if (members.get? key).isSome then members.keys else members.keys ++ [key])
  split
  · exact .refl _
  · next hnone => exact ⟨[key], rfl, List.forall_mem_singleton.mpr (mt h.mem_keys_iff.mp hnone)⟩

theorem extends_write (h : members.Agrees) :
    Extends members.keys (members.write selector replaces entry).keys := by
  have hboth : (members.write selector replaces entry).Agrees ∧
      Extends members.keys (members.write selector replaces entry).keys :=
    write_induction (P := fun m => m.Agrees ∧ Extends members.keys m.keys) ⟨h, .refl _⟩
      fun m key entry _ hm => ⟨hm.1.set key entry, hm.2.trans (extends_set hm.1 key entry)⟩
  exact hboth.2

theorem get?_write_of_not_mayTouch (h : ¬selector.mayTouch key) :
    (members.write selector replaces entry).get? key = members.get? key := by
  refine write_induction (P := fun m => m.get? key = members.get? key) rfl
    fun m other entry htouch hm => ?_
  have hne : key ≠ other := fun he => h (he ▸ htouch)
  rw [Table.get?_set_of_ne _ _ hne, hm]

end Members

namespace Store

-- The paths that a write goes to besides its own, in the order in which they were recorded.
def aliasesOf (store : Store) (path : Path) : List Path :=
  (store.aliases.filter fun pair => pair.1 = path).map Prod.snd

-- Writes the same entry at one path after the other.
def assignAll (store : Store) (paths : List Path) (entry : Entry) : Store :=
  paths.foldl (fun s path => s.assign path entry) store

-- Whether a path may lead to a member, as long as the store is as it is.
def Reaches (store : Store) (path : Path) (c : Container) (key : String) : Prop :=
  ∃ parent step, path.parent? = some (parent, step) ∧
    (∃ v ∈ (store.read parent).values, step.access.container? v = some c) ∧
    step.selector.mayTouch key

variable {store : Store} {path : Path} {paths : List Path} {entry : Entry} {c : Container}
  {key : String}

theorem write_eq_assignAll (store : Store) (path : Path) (entry : Entry) :
    store.write path entry = store.assignAll (path :: store.aliasesOf path) entry :=
  rfl

-- One container after the other is written to.
theorem assign_induction {P : Map Container Members → Prop} (hstore : P store.members)
    (hset : ∀ all selector replaces d, P all →
      (∀ key, selector.mayTouch key → store.Reaches path d key) →
      P (all.set d (((all.get? d).getD .empty).write selector replaces entry))) :
    P (store.assign path entry).members := by
  unfold assign
  split
  · exact hstore
  · next target htarget =>
    obtain ⟨⟨parent, step⟩, hparent, rfl⟩ := Option.map_eq_some_iff.mp htarget
    refine List.foldlRecOn _ _ hstore fun all hall d hd => hset all _ _ d hall fun key hkey => ?_
    exact ⟨parent, step, hparent, List.mem_filterMap.mp hd, hkey⟩

theorem entryAt_assign_of_not_reaches (entry : Entry) (h : ¬store.Reaches path c key) :
    (store.assign path entry).entryAt c key = store.entryAt c key := by
  refine assign_induction (P := fun all => (all.get? c).bind (fun members => members.get? key) =
    store.entryAt c key) rfl fun all selector replaces d hall hreaches => ?_
  by_cases hd : c = d
  · subst hd
    have hkey : ¬selector.mayTouch key := fun hkey => h (hreaches key hkey)
    rw [← hall, Map.get?_set_self, Option.bind_some, Members.get?_write_of_not_mayTouch hkey]
    cases all.get? c <;> rfl
  · rw [Map.get?_set_of_ne _ _ hd, hall]

theorem extends_assign (hs : store.Agrees) (path : Path) (entry : Entry) (c : Container) :
    Extends (store.keysAt c) ((store.assign path entry).keysAt c) := by
  have hboth : Agrees { store with members := (store.assign path entry).members } ∧
      Extends (store.keysAt c) ((store.assign path entry).keysAt c) := by
    refine assign_induction (P := fun all => Agrees { store with members := all } ∧
      Extends (store.keysAt c) ((all.get? c).elim [] Table.keys)) ⟨hs, .refl _⟩
      fun all selector replaces d hall _ => ?_
    refine ⟨hall.1.set (Members.agrees_write (hall.1.getD d) selector replaces entry) rfl, ?_⟩
    by_cases hd : c = d
    · subst hd
      have hc := hall.2
      rw [← Members.keys_getD] at hc
      rw [Map.get?_set_self]
      exact hc.trans (Members.extends_write (hall.1.getD c))
    · rw [Map.get?_set_of_ne _ _ hd]
      exact hall.2
  exact hboth.2

theorem extends_assignAll (hs : store.Agrees) (paths : List Path) (entry : Entry)
    (c : Container) : Extends (store.keysAt c) ((store.assignAll paths entry).keysAt c) := by
  induction paths generalizing store with
  | nil => exact .refl _
  | cons path paths ih =>
    exact (extends_assign hs path entry c).trans (ih (hs.assign path entry))

-- A member that changes is reached by one of the writes when that write is made.
theorem exists_reaches_of_ne
    (h : (store.assignAll paths entry).entryAt c key ≠ store.entryAt c key) :
    ∃ front path back, paths = front ++ path :: back ∧
      (store.assignAll front entry).Reaches path c key := by
  induction paths generalizing store with
  | nil => exact absurd rfl h
  | cons path paths ih =>
    by_cases hreaches : store.Reaches path c key
    · exact ⟨[], path, paths, rfl, hreaches⟩
    · rw [← entryAt_assign_of_not_reaches entry hreaches] at h
      obtain ⟨front, later, back, rfl, hlater⟩ := ih h
      exact ⟨path :: front, later, back, rfl, hlater⟩

-- What a place holds already is not lost to writes of the same entry at other places.
theorem entryAt_assignAll_of_eq (hplaces : ∀ path ∈ paths, path.IsPlace)
    (h : store.entryAt c key = some entry) :
    (store.assignAll paths entry).entryAt c key = some entry := by
  refine List.foldlRecOn (motive := fun s : Store => s.entryAt c key = some entry)
    _ _ h fun s hs path hpath => ?_
  obtain ⟨v, access, name, hsome, rfl⟩ := hplaces path hpath
  obtain ⟨d, hd⟩ := Option.isSome_iff_exists.mp hsome
  rw [assign_single hd, entryAt_put, hs, ite_self]

theorem read_assignAll_of_places (hplaces : ∀ path ∈ paths, path.IsPlace) (hpath : path ∈ paths) :
    (store.assignAll paths entry).read path = entry := by
  induction paths generalizing store with
  | nil => cases hpath
  | cons first paths ih =>
    obtain ⟨hfirst, hrest⟩ := List.forall_mem_cons.mp hplaces
    rcases List.mem_cons.mp hpath with rfl | hpath
    · obtain ⟨v, access, key, hsome, rfl⟩ := hfirst
      obtain ⟨c, hc⟩ := Option.isSome_iff_exists.mp hsome
      have hwritten : (store.assign ((Path.ofValue v).member access (.single key)) entry).entryAt
          c key = some entry := by
        rw [assign_single hc, entryAt_put, if_pos ⟨rfl, rfl⟩]
      rw [read_member hc]
      exact congrArg (Option.getD · _) (entryAt_assignAll_of_eq hrest hwritten)
    · exact ih hrest hpath

-- A write changes only members that it reaches, each of its paths at the time it is written. Keys
-- stay in order and new ones come behind them, if both copies of the keys agree. Places that are
-- written to hold the entry after it.
theorem write_frame (store : Store) (path : Path) (entry : Entry) :
    (∀ c key, (store.write path entry).entryAt c key ≠ store.entryAt c key →
      ∃ front written back, path :: store.aliasesOf path = front ++ written :: back ∧
        (store.assignAll front entry).Reaches written c key) ∧
    (store.Agrees → ∀ c, Extends (store.keysAt c) ((store.write path entry).keysAt c)) ∧
    ((store.write path entry).aliases = store.aliases ∧
      (store.write path entry).nextArray = store.nextArray ∧
      (store.write path entry).nextObject = store.nextObject ∧
      (store.write path entry).nextResource = store.nextResource) ∧
    ((∀ written ∈ path :: store.aliasesOf path, written.IsPlace) →
      ∀ written ∈ path :: store.aliasesOf path, (store.write path entry).read written = entry) := by
  rw [write_eq_assignAll]
  refine ⟨fun c key => exists_reaches_of_ne,
    fun hs => extends_assignAll hs _ entry, ?_,
    fun hplaces written => read_assignAll_of_places hplaces⟩
  obtain ⟨members, hwrite⟩ := store.write_eq path entry
  rw [← write_eq_assignAll, hwrite]
  exact ⟨rfl, rfl, rfl, rfl⟩

-- A member of an array and a field of an object that are aliases.
def element : Path := (Path.ofValue (.array 0)).member .index (.single "a")

def field : Path := (Path.ofValue (.object 0 "C")).member .field (.single "f")

def elementAndField : Store :=
  (Store.empty.newArray.2.newObject "C").2.addAliases element [field]

theorem write_frame_elementAndField :
    elementAndField.Agrees ∧
    Extends (elementAndField.keysAt (.array 0))
      ((elementAndField.write element (.union (.single (.int 5)) (.single .null))).keysAt
        (.array 0)) ∧
    elementAndField.aliasesOf element = [field] ∧
    (∀ written ∈ element :: elementAndField.aliasesOf element, written.IsPlace) ∧
    ∀ written ∈ element :: elementAndField.aliasesOf element,
      (elementAndField.write element (.union (.single (.int 5)) (.single .null))).read written =
        .union (.single (.int 5)) (.single .null) := by
  have haliases : elementAndField.aliasesOf element = [field] := by decide
  have hplaces : ∀ written ∈ element :: elementAndField.aliasesOf element, written.IsPlace := by
    rw [haliases]
    refine List.forall_mem_cons.mpr ⟨?_, List.forall_mem_singleton.mpr ?_⟩
    · exact ⟨.array 0, .index, "a", rfl, rfl⟩
    · exact ⟨.object 0 "C", .field, "f", rfl, rfl⟩
  have hs : elementAndField.Agrees :=
    (((wellFormed_empty.allocate .index).allocate .field).addAliases element [field]).agrees
  obtain ⟨-, hkeys, -, hread⟩ := write_frame elementAndField element
    (.union (.single (.int 5)) (.single .null))
  exact ⟨hs, hkeys hs (.array 0), haliases, hplaces, hread hplaces⟩

end Store

end AbsEval
