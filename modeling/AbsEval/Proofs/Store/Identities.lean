import AbsEval.Proofs.Store.Assign

namespace AbsEval

-- How many arrays and how many objects were made. Identities are given out in order, so those in
-- use are the ones below.
abbrev Counts := Access → Nat

namespace Counts

def add (count made : Counts) : Counts := fun access => count access + made access

def single (access : Access) : Counts := fun other => if other = access then 1 else 0

@[simp] theorem single_self (access : Access) : single access access = 1 := if_pos rfl

theorem add_assoc (count made more : Counts) :
    (count.add made).add more = count.add (made.add more) :=
  funext fun _ => Nat.add_assoc _ _ _

end Counts

namespace Container

def access : Container → Access
  | array _ => .index
  | object _ => .field

def id : Container → UInt32
  | array id => id
  | object id => id

def Within (count : Counts) (c : Container) : Prop :=
  c.id.toNat < count c.access

end Container

-- What a value, an entry or a path mentions, and that all of it is in use.

def Value.Mentions (v : Value) (c : Container) : Prop :=
  ∃ access : Access, access.container? v = some c

def Value.Within (count : Counts) (v : Value) : Prop :=
  ∀ c, v.Mentions c → c.Within count

def Entry.Within (count : Counts) (e : Entry) : Prop :=
  ∀ v ∈ e.values, v.Within count

def Path.Mentions (path : Path) (c : Container) : Prop :=
  ∃ v ∈ path.root.values, v.Mentions c

def Path.Within (count : Counts) (path : Path) : Prop :=
  path.root.Within count

def Members.Within (count : Counts) (members : Members) : Prop :=
  ∀ key entry, members.get? key = some entry → entry.Within count

-- In a stored entry or in an alias.
def Store.Mentions (store : Store) (c : Container) : Prop :=
  (∃ d key entry, store.entryAt d key = some entry ∧ ∃ v ∈ entry.values, v.Mentions c) ∨
  ∃ pair ∈ store.aliases, pair.1.Mentions c ∨ pair.2.Mentions c

section Within

variable {count made : Counts} {v : Value} {e f : Entry} {c : Container}

theorem Container.within_add (h : c.Within count) : c.Within (count.add made) :=
  Nat.lt_of_lt_of_le h (Nat.le_add_right _ _)

theorem Value.within_add (h : v.Within count) : v.Within (count.add made) :=
  fun c hc => Container.within_add (h c hc)

theorem Entry.within_add (h : e.Within count) : e.Within (count.add made) :=
  fun v hv => Value.within_add (h v hv)

theorem Value.eq_of_mentions {d : Container} (h : v.Mentions c) (k : v.Mentions d) : c = d := by
  obtain ⟨access, h⟩ := h
  obtain ⟨other, k⟩ := k
  cases v <;> cases access <;> cases h <;> cases other <;> cases k <;> rfl

theorem Value.within_null : Value.null.Within count := by
  rintro c ⟨access, h⟩
  cases access <;> cases h

theorem Value.within_any (kind : Kind) : (Value.any kind).Within count := by
  rintro c ⟨access, h⟩
  cases access <;> cases h

theorem Value.within_normalized (h : v.Within count) : v.normalized.Within count := by
  cases v with
  | intRange range | longRange range | floatRange range =>
    simp only [normalized]
    split
    · rintro c ⟨access, hc⟩
      cases access <;> cases hc
    · exact h
  | _ => exact h

theorem Entry.within_single (h : v.Within count) : (Entry.single v).Within count := by
  intro w hw
  rw [List.mem_singleton.mp hw]
  exact h

theorem Entry.within_union (he : e.Within count) (hf : f.Within count) :
    (e.union f).Within count := by
  intro v hv
  rcases Entry.mem_union.mp hv with hv | hv
  · exact he v hv
  · exact hf v hv

end Within

namespace Members

variable {count : Counts} {members : Members} {key : String} {entry : Entry}

theorem within_set (hm : members.Within count) (he : entry.Within count) :
    Within count (members.set key entry) := by
  intro other stored hget
  by_cases hk : other = key
  · rw [hk, Table.get?_set_self, Option.some.injEq] at hget
    exact hget ▸ he
  · rw [Table.get?_set_of_ne _ _ hk] at hget
    exact hm other stored hget

theorem within_merge (hm : members.Within count) (he : entry.Within count) :
    (members.merge key entry).Within count := by
  rw [merge_eq_set]
  refine within_set hm ?_
  cases hget : members.get? key with
  | none => exact Entry.within_union he (Entry.within_single Value.within_null)
  | some old => exact Entry.within_union (hm key old hget) he

theorem within_write (selector : Selector) (replaces : Bool) (hm : members.Within count)
    (he : entry.Within count) : (members.write selector replaces entry).Within count := by
  cases selector with
  | any => exact List.foldlRecOn _ _ hm fun m hm key _ => within_merge hm he
  | names keys =>
    refine List.foldlRecOn _ _ hm fun m hm key _ => ?_
    split
    · exact within_set hm he
    · exact within_merge hm he

theorem within_of_mem_read {selector : Selector} {v : Value} (hm : members.Within count)
    (hv : v ∈ members.read selector) : v.Within count := by
  cases selector with
  | names keys =>
    obtain ⟨key, -, hv⟩ := List.mem_flatMap.mp hv
    cases hget : members.get? key with
    | none =>
      rw [hget] at hv
      exact List.mem_singleton.mp hv ▸ Value.within_null
    | some e =>
      rw [hget] at hv
      exact hm key e hget v hv
  | any =>
    rcases List.mem_append.mp hv with hv | hv
    · obtain ⟨row, hrow, hv⟩ := List.mem_flatMap.mp hv
      exact hm row.1 row.2 (Table.get?_of_mem_rows hrow) v hv
    · exact List.mem_singleton.mp hv ▸ Value.within_null

end Members

namespace Store

def nextId (store : Store) : Access → UInt32
  | .index => store.nextArray
  | .field => store.nextObject

-- The container that is made next.
def next (store : Store) : Access → Container
  | .index => .array store.nextArray
  | .field => .object store.nextObject

def allocate (store : Store) : Access → Store
  | .index => store.newArray.2
  | .field => (store.newObject "").2

-- What holds of a store after `count` containers were made, if only these are mentioned to it.
structure Consistent (count : Counts) (store : Store) : Prop where
  nextId : ∀ access, (store.nextId access).toNat = count access % 2 ^ 32
  present : ∀ c, (store.members.get? c).isSome → c.Within count
  stored : ∀ c members, store.members.get? c = some members → members.Within count
  aliases : ∀ pair ∈ store.aliases, pair.1.Within count ∧ pair.2.Within count

variable {store : Store} {count : Counts} {path : Path} {base entry : Entry} {step : Step}
  {v w : Value} {c : Container}

theorem consistent_empty : Store.empty.Consistent fun _ => 0 where
  nextId access := by cases access <;> rfl
  present c hc := by cases hc
  stored c members hc := by cases hc
  aliases pair hp := by cases hp

namespace Consistent

theorem within_of_mentions (h : store.Consistent count) (hc : store.Mentions c) :
    c.Within count := by
  rcases hc with ⟨d, key, entry, hentry, v, hv, hc⟩ | ⟨pair, hp, hc | hc⟩
  · obtain ⟨members, hget, hentry⟩ := Option.bind_eq_some_iff.mp hentry
    exact h.stored d members hget key entry hentry v hv c hc
  · obtain ⟨v, hv, hc⟩ := hc
    exact (h.aliases pair hp).1 v hv c hc
  · obtain ⟨v, hv, hc⟩ := hc
    exact (h.aliases pair hp).2 v hv c hc

-- Reading finds nothing that is not in use.

theorem within_readMember (h : store.Consistent count) (hw : w ∈ store.readMember step v) :
    w.Within count := by
  have hnull : w ∈ [Value.null] → w.Within count := fun hw =>
    List.mem_singleton.mp hw ▸ Value.within_null
  have hany : ∀ kind, w ∈ [Value.any kind] → w.Within count := fun kind hw =>
    List.mem_singleton.mp hw ▸ Value.within_any kind
  unfold readMember at hw
  split at hw
  · next container _ =>
    split at hw
    · next members hget => exact Members.within_of_mem_read (h.stored container members hget) hw
    · exact hnull hw
  · split at hw
    · exact hany _ hw
    · exact hany _ hw
    · split at hw
      · exact hany _ hw
      · exact hnull hw
    · split at hw
      · exact hany _ hw
      · exact hnull hw
    · exact hnull hw

theorem within_readStep (h : store.Consistent count) (base : Entry) (step : Step) :
    (store.readStep base step).Within count := by
  intro w hw
  unfold readStep Entry.ofList? at hw
  split at hw
  · next hne =>
    obtain ⟨v, -, hw⟩ := List.mem_flatMap.mp ((Entry.mem_ofNonempty hne).mp hw)
    exact h.within_readMember hw
  · exact List.mem_singleton.mp hw ▸ Value.within_null

theorem within_read (h : store.Consistent count) (hp : path.Within count) :
    (store.read path).Within count := by
  obtain ⟨root, steps⟩ := path
  induction steps generalizing root with
  | nil => exact hp
  | cons step steps ih => exact ih (store.readStep root step) (h.within_readStep root step)

theorem within_parent (hp : path.Within count) {parent : Path}
    (h : path.parent? = some (parent, step)) : parent.Within count := by
  obtain ⟨last, -, hlast⟩ := Option.map_eq_some_iff.mp h
  cases hlast
  exact hp

-- Other members for a container in use.
theorem set {members : Members} (h : store.Consistent count) (hc : c.Within count)
    (hm : members.Within count) :
    Consistent count { store with members := store.members.set c members } where
  nextId := h.nextId
  present d hd := by
    by_cases hdc : d = c
    · exact hdc ▸ hc
    · rw [Map.get?_set_of_ne _ _ hdc] at hd
      exact h.present d hd
  stored d ms hd := by
    by_cases hdc : d = c
    · subst hdc
      rw [Map.get?_set_self, Option.some.injEq] at hd
      exact hd ▸ hm
    · rw [Map.get?_set_of_ne _ _ hdc] at hd
      exact h.stored d ms hd
  aliases := h.aliases

theorem within_getD (h : store.Consistent count) (c : Container) :
    Members.Within count ((store.members.get? c).getD .empty) := by
  cases hget : store.members.get? c with
  | none => exact fun key entry hentry => by cases hentry
  | some members => exact h.stored c members hget

theorem assign (h : store.Consistent count) (hp : path.Within count) (he : entry.Within count) :
    (store.assign path entry).Consistent count := by
  unfold Store.assign
  split
  · exact h
  · next target htarget =>
    obtain ⟨⟨parent, step⟩, hparent, rfl⟩ := Option.map_eq_some_iff.mp htarget
    refine List.foldlRecOn
      (motive := fun all : Map Container Members =>
        Consistent count { store with members := all })
      _ _ h fun all hall c hc => ?_
    obtain ⟨v, hv, hvc⟩ := List.mem_filterMap.mp hc
    have hwithin : c.Within count :=
      h.within_read (within_parent hp hparent) v hv c ⟨step.access, hvc⟩
    exact hall.set hwithin (Members.within_write _ _ (hall.within_getD c) he)

theorem write (h : store.Consistent count) (hp : path.Within count) (he : entry.Within count) :
    (store.write path entry).Consistent count := by
  refine List.foldlRecOn _ _ (h.assign hp he) fun s hs other hother => hs.assign ?_ he
  obtain ⟨pair, hpair, rfl⟩ := List.mem_map.mp hother
  exact (h.aliases pair (List.mem_filter.mp hpair).1).2

theorem addAliases {others : List Path} (h : store.Consistent count) (hp : path.Within count)
    (ho : ∀ other ∈ others, other.Within count) :
    (store.addAliases path others).Consistent count := by
  have hfound : ∀ e, Entry.ofList? (others.flatMap fun other => (store.read other).values) =
      some e → e.Within count := by
    intro e he v hv
    unfold Entry.ofList? at he
    split at he
    · next hne =>
      cases he
      obtain ⟨other, hother, hv⟩ := List.mem_flatMap.mp ((Entry.mem_ofNonempty hne).mp hv)
      exact h.within_read (ho other hother) v hv
    · cases he
  have hassigned : Consistent count ((Entry.ofList? (others.flatMap fun other =>
      (store.read other).values)).elim store (store.assign path)) := by
    cases hlist : Entry.ofList? (others.flatMap fun other => (store.read other).values) with
    | none => exact h
    | some e => exact h.assign hp (hfound e hlist)
  refine ⟨hassigned.nextId, hassigned.present, hassigned.stored, ?_⟩
  refine List.foldlRecOn
    (motive := fun known : List (Path × Path) =>
      ∀ pair ∈ known, pair.1.Within count ∧ pair.2.Within count)
    _ _ hassigned.aliases fun known hknown pair hpair => ?_
  have hnew : pair.1.Within count ∧ pair.2.Within count := by
    obtain ⟨other, hother, hpair⟩ := List.mem_flatMap.mp hpair
    rcases List.mem_cons.mp hpair with rfl | hpair
    · exact ⟨hp, ho other hother⟩
    · rw [List.mem_singleton.mp hpair]
      exact ⟨ho other hother, hp⟩
  split
  · exact hknown
  · intro other hother
    rcases List.mem_append.mp hother with hother | hother
    · exact hknown other hother
    · exact List.mem_singleton.mp hother ▸ hnew

end Consistent

end Store

end AbsEval
