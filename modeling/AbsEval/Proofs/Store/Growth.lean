import AbsEval.ArrayLiteral
import AbsEval.Conversion.Compound
import AbsEval.Proofs.Store.Identities

namespace AbsEval.Store

-- Writes to members of one value, of what is found at given paths.
inductive Fills (given : Path → Prop) (target : Value) (access : Access) :
    Store → Store → Prop where
  | done (store : Store) : Fills given target access store store
  | write {store last : Store} {path : Path} {selector : Selector} :
      given path →
      Fills given target access
        (store.write ((Path.ofValue target).member access selector) (store.read path)) last →
      Fills given target access store last

-- All that evaluation does to a store: nothing, or it makes one container and fills it.
inductive Grows (given : Path → Prop) (store : Store) : Store → Prop where
  | same : Grows given store store
  | make {access : Access} {target : Value} {last : Store} :
      access.container? target = some (store.next access) →
      Fills given target access (store.allocate access) last → Grows given store last

section Operations

variable {given : Path → Prop} {store last : Store} {access : Access} {v target : Value}

theorem grows_newArray : Grows given store store.newArray.2 :=
  @Grows.make given store .index (.array store.nextArray) _ rfl (.done _)

theorem grows_newObject (className : String) : Grows given store (store.newObject className).2 :=
  @Grows.make given store .field (.object store.nextObject className) _ rfl (.done _)

theorem fills_copyMembers {source : Value} {sourceAccess : Access} {keys : List String}
    (hgiven : ∀ steps, given ⟨.single source, steps⟩)
    (hlast : Fills given target access (store.copyMembers source sourceAccess keys target access)
      last) : Fills given target access store last := by
  induction keys generalizing store with
  | nil => exact hlast
  | cons key keys ih => exact .write (hgiven _) (ih hlast)

theorem fills_writeItems {items : List (Selector × Entry)}
    (hgiven : ∀ item ∈ items, given (.ofEntry item.2)) :
    Fills given target .index store (store.writeItems target items) := by
  induction items generalizing store with
  | nil => exact .done store
  | cons item items ih =>
    obtain ⟨hitem, hitems⟩ := List.forall_mem_cons.mp hgiven
    unfold writeItems
    rw [List.foldl_cons]
    dsimp only
    split
    · exact ih hitems
    · exact .write hitem (ih hitems)

theorem grows_toObject (hgiven : ∀ steps, given ⟨.single v, steps⟩) :
    Grows given store (store.toObject v).2 := by
  cases v with
  | null => exact grows_newObject _
  | array id => exact .make rfl (fills_copyMembers hgiven (.done _))
  | bool b | int n | long n | float x | str text | resource id =>
    exact .make rfl (.write (hgiven []) (.done _))
  | object id className | intRange range | longRange range | floatRange range | any kind
  | marker m => exact .same

theorem grows_toArray (hgiven : ∀ steps, given ⟨.single v, steps⟩) :
    Grows given store (store.toArray v).2 := by
  cases v with
  | null => exact grows_newArray
  | object id className => exact .make rfl (fills_copyMembers hgiven (.done _))
  | bool b | int n | long n | float x | str text | resource id =>
    exact .make rfl (.write (hgiven []) (.done _))
  | array id | intRange range | longRange range | floatRange range | any kind | marker m =>
    exact .same

theorem grows_cloneObject {id : UInt32} {className : String}
    (hgiven : ∀ steps, given ⟨.single (.object id className), steps⟩) :
    Grows given store (store.cloneObject id className).2 :=
  .make rfl (fills_copyMembers hgiven (.done _))

theorem grows_unionArrays {left right : Value} (hleft : ∀ steps, given ⟨.single left, steps⟩)
    (hright : ∀ steps, given ⟨.single right, steps⟩) :
    Grows given store (store.unionArrays left right).2 :=
  .make rfl (fills_copyMembers hleft (fills_copyMembers hright (.done _)))

end Operations

variable {given : Path → Prop} {store last : Store} {access : Access} {target : Value}
  {c d : Container} {count : Counts}

namespace Fills

theorem mono {given' : Path → Prop} (hgiven : ∀ path, given path → given' path)
    (h : Fills given target access store last) : Fills given' target access store last := by
  induction h with
  | done store => exact .done store
  | write hpath _ ih => exact .write (hgiven _ hpath) ih

theorem nextId_eq (h : Fills given target access store last) : last.nextId = store.nextId := by
  induction h with
  | done => rfl
  | @write store last path selector _ _ ih =>
    obtain ⟨members, hwrite⟩ := store.write_eq ((Path.ofValue target).member access selector)
      (store.read path)
    rw [ih, hwrite]
    rfl

theorem aliases_eq (h : Fills given target access store last) : last.aliases = store.aliases := by
  induction h with
  | done => rfl
  | @write store last path selector _ _ ih =>
    obtain ⟨members, hwrite⟩ := store.write_eq ((Path.ofValue target).member access selector)
      (store.read path)
    rw [ih, hwrite]

-- Without aliases of the container that is filled, no other is written to.
theorem get?_eq (h : Fills given target access store last)
    (hc : access.container? target = some c)
    (ha : ∀ pair ∈ store.aliases, pair.1.root ≠ .single target) (hd : d ≠ c) :
    last.members.get? d = store.members.get? d := by
  induction h with
  | done => rfl
  | @write store last path selector _ _ ih =>
    rw [write_member hc ha] at ih
    rw [ih ha, Map.get?_set_of_ne _ _ hd]

theorem consistent (h : Fills (Path.Within count) target access store last)
    (hs : store.Consistent count) (ht : target.Within count) : last.Consistent count := by
  induction h with
  | done => exact hs
  | write hpath _ ih => exact ih (hs.write (Entry.within_single ht) (hs.within_read hpath))

end Fills

theorem Grows.mono {given' : Path → Prop} (hgiven : ∀ path, given path → given' path)
    (h : Grows given store last) : Grows given' store last := by
  cases h with
  | same => exact .same
  | make htarget hfills => exact .make htarget (hfills.mono hgiven)

-- How many containers of each sort were made, unless all identities were used up.
def made (store last : Store) : Counts :=
  fun access => (last.nextId access - store.nextId access).toNat

-- What is in use stays as it is.
structure Frame (count : Counts) (store last : Store) : Prop where
  members : ∀ c, c.Within count → last.members.get? c = store.members.get? c
  aliases : last.aliases = store.aliases

theorem Frame.refl (count : Counts) (store : Store) : Frame count store store :=
  ⟨fun _ _ => rfl, rfl⟩

theorem Frame.trans {more : Counts} {mid : Store} (h : Frame count store mid)
    (k : Frame (count.add more) mid last) : Frame count store last where
  members c hc := (k.members c (Container.within_add hc)).trans (h.members c hc)
  aliases := k.aliases.trans h.aliases

@[simp] theorem id_next (store : Store) (access : Access) :
    (store.next access).id = store.nextId access := by
  cases access <;> rfl

@[simp] theorem access_next (store : Store) (access : Access) :
    (store.next access).access = access := by
  cases access <;> rfl

theorem allocate_eq (store : Store) (access : Access) :
    (store.allocate access).members = store.members.set (store.next access) .empty ∧
      (store.allocate access).aliases = store.aliases := by
  cases access <;> exact ⟨rfl, rfl⟩

theorem nextId_allocate (store : Store) (access other : Access) :
    (store.allocate access).nextId other =
      if other = access then store.nextId other + 1 else store.nextId other := by
  cases access <;> cases other <;> rfl

theorem within_next (h : store.Consistent count) (access : Access) :
    (store.next access).Within (count.add (.single access)) := by
  have hid := h.nextId access
  have hle := Nat.mod_le (count access) (2 ^ 32)
  simp only [Container.Within, id_next, access_next, Counts.add, Counts.single_self]
  omega

theorem not_within_next (h : store.Consistent count) (hroom : count access < 2 ^ 32) :
    ¬(store.next access).Within count := by
  have hid := h.nextId access
  simp only [Container.Within, id_next, access_next]
  omega

-- What is made next has no alias yet.
theorem root_ne_single_next (h : store.Consistent count) (hroom : count access < 2 ^ 32)
    (htarget : access.container? target = some (store.next access)) :
    ∀ pair ∈ store.aliases, pair.1.root ≠ .single target := by
  intro pair hpair hroot
  have hwithin := (h.aliases pair hpair).1
  rw [Path.Within, hroot] at hwithin
  exact not_within_next h hroom (hwithin target (List.mem_singleton.mpr rfl) _ ⟨access, htarget⟩)

theorem consistent_allocate (h : store.Consistent count) (access : Access) :
    (store.allocate access).Consistent (count.add (.single access)) := by
  obtain ⟨hmembers, haliases⟩ := store.allocate_eq access
  constructor
  · intro other
    have hid := h.nextId other
    rw [nextId_allocate]
    simp only [Counts.add, Counts.single]
    split
    · rw [UInt32.toNat_add, hid]
      simp
    · exact hid
  · intro c hc
    rw [hmembers] at hc
    by_cases hn : c = store.next access
    · exact hn ▸ within_next h access
    · rw [Map.get?_set_of_ne _ _ hn] at hc
      exact Container.within_add (h.present c hc)
  · intro c members hc key entry hentry
    rw [hmembers] at hc
    by_cases hn : c = store.next access
    · rw [hn, Map.get?_set_self, Option.some.injEq] at hc
      rw [← hc] at hentry
      cases hentry
    · rw [Map.get?_set_of_ne _ _ hn] at hc
      exact Entry.within_add (h.stored c members hc key entry hentry)
  · intro pair hpair
    rw [haliases] at hpair
    obtain ⟨hfst, hsnd⟩ := h.aliases pair hpair
    exact ⟨Entry.within_add hfst, Entry.within_add hsnd⟩

theorem made_self (store : Store) : store.made store = fun _ => 0 := by
  funext access
  simp [made]

theorem made_of_nextId {access : Access} (h : last.nextId = (store.allocate access).nextId) :
    store.made last = .single access := by
  funext other
  simp only [made, h, nextId_allocate, Counts.single]
  split
  · rw [UInt32.add_comm, UInt32.add_sub_cancel]
    rfl
  · simp

-- What the step makes was not in use before it.
theorem consistent_of_grows (h : Grows (Path.Within count) store last)
    (hs : store.Consistent count)
    (hroom : ∀ access, count access + store.made last access ≤ 2 ^ 32) :
    last.Consistent (count.add (store.made last)) ∧ Frame count store last := by
  cases h with
  | same =>
    rw [made_self]
    exact ⟨hs, Frame.refl count store⟩
  | @make access target _ htarget hfills =>
    have hmade := made_of_nextId hfills.nextId_eq
    obtain ⟨hmembers, haliases⟩ := store.allocate_eq access
    have hleft : count access < 2 ^ 32 := by
      have hle := hroom access
      rwa [hmade, Counts.single_self] at hle
    have hnew := not_within_next hs hleft
    have htargetWithin : target.Within (count.add (.single access)) := by
      intro c hc
      rw [Value.eq_of_mentions hc ⟨access, htarget⟩]
      exact within_next hs access
    have hunaliased : ∀ pair ∈ (store.allocate access).aliases, pair.1.root ≠ .single target :=
      haliases ▸ root_ne_single_next hs hleft htarget
    rw [hmade]
    refine ⟨?_, ?_, hfills.aliases_eq.trans haliases⟩
    · exact (hfills.mono fun path hpath => Entry.within_add hpath).consistent
        (consistent_allocate hs access) htargetWithin
    · intro c hc
      have hne : c ≠ store.next access := fun h => hnew (h ▸ hc)
      rw [hfills.get?_eq htarget hunaliased hne, hmembers, Map.get?_set_of_ne _ _ hne]

end AbsEval.Store
