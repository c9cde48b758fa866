import AbsEval.Proofs.Store.Bookkeeping

namespace AbsEval

namespace Map

variable {κ β : Type} [DecidableEq κ] {m : Map κ β}

-- With every key once, each row is what is found at its key.
theorem get?_of_mem_rows (h : m.keys.Nodup) {row : κ × β} (hrow : row ∈ m.rows) :
    m.get? row.1 = some row.2 := by
  obtain ⟨rows⟩ := m
  change (rows.map Prod.fst).Nodup at h
  change row ∈ rows at hrow
  show find? row.1 rows = some row.2
  induction rows with
  | nil => cases hrow
  | cons first rows ih =>
    obtain ⟨hfirst, hrest⟩ := List.nodup_cons.mp h
    rcases List.mem_cons.mp hrow with rfl | hrow
    · simp [find?]
    · have hne : first.1 ≠ row.1 := fun he => hfirst (he ▸ List.mem_map_of_mem hrow)
      simp only [find?, if_neg hne]
      exact ih hrest hrow

theorem set_set (m : Map κ β) (key : κ) (a b : β) : (m.set key a).set key b = m.set key b := by
  obtain ⟨rows⟩ := m
  show (⟨put key b (put key a rows)⟩ : Map κ β) = ⟨put key b rows⟩
  congr 1
  induction rows with
  | nil => simp [put]
  | cons row rows ih =>
    by_cases h : row.1 = key
    · simp [put, h]
    · simp [put, h, ih]

-- A new key gets a row behind all others.
theorem set_of_not_mem (m : Map κ β) {key : κ} (b : β) (h : key ∉ m.keys) :
    m.set key b = ⟨m.rows ++ [(key, b)]⟩ := by
  obtain ⟨rows⟩ := m
  show (⟨put key b rows⟩ : Map κ β) = ⟨rows ++ [(key, b)]⟩
  change key ∉ rows.map Prod.fst at h
  congr 1
  induction rows with
  | nil => rfl
  | cons row rows ih =>
    obtain ⟨hne, hrest⟩ := not_or.mp (mt List.mem_cons.mpr h)
    simp [put, Ne.symm hne, ih hrest]

end Map

namespace Table

variable {κ β : Type}

def ofRows (rows : List (κ × β)) : Table κ β :=
  ⟨rows.map Prod.fst, ⟨rows⟩⟩

variable [DecidableEq κ] {t : Table κ β}

theorem ofRows_set {rows : List (κ × β)} {key : κ} (b : β) (h : key ∉ rows.map Prod.fst) :
    (ofRows rows).set key b = ofRows (rows ++ [(key, b)]) := by
  have hnew : ((ofRows rows).get? key).isSome = false :=
    Bool.eq_false_iff.mpr (mt Map.isSome_get?_iff.mp h)
  have hvalues : (ofRows rows).values.set key b = ⟨rows ++ [(key, b)]⟩ :=
    Map.set_of_not_mem _ b h
  have hkeys : (rows ++ [(key, b)]).map Prod.fst = (ofRows rows).keys ++ [key] := List.map_append
  rw [set, hnew, hvalues, ofRows.eq_def (rows ++ [(key, b)]), hkeys]
  rfl

-- Tables whose copies agree are told by their rows.
theorem Agrees.rows_eq (h : t.Agrees) : t.rows = t.values.rows := by
  have hfound : ∀ row ∈ t.values.rows,
      (t.get? row.1).map (fun b => (row.1, b)) = some row := by
    intro row hrow
    rw [get?, Map.get?_of_mem_rows (h.same ▸ h.distinct) hrow]
    rfl
  rw [rows, ← h.same, Map.keys, List.filterMap_map]
  exact (List.filterMap_congr hfound).trans List.filterMap_some

theorem Agrees.ofRows_rows (h : t.Agrees) : ofRows t.rows = t := by
  rw [h.rows_eq, ofRows, ← Map.keys, h.same]

theorem Agrees.map_fst_rows (h : t.Agrees) : t.rows.map Prod.fst = t.keys := by
  rw [h.rows_eq, ← Map.keys, h.same]

end Table

-- All rows of one, and behind them those of the other whose keys are not among them.
def Members.orElse (left right : Members) : Members :=
  .ofRows (left.rows ++ right.rows.filter fun row => row.1 ∉ left.keys)

theorem Members.filter_not_mem_empty (keys : List String) :
    keys.filter (fun key => key ∉ Table.keys (.empty : Members)) = keys :=
  List.filter_eq_self.mpr fun _ _ => rfl

theorem Members.empty_orElse {members : Members} (h : members.Agrees) :
    Members.orElse .empty members = members := by
  have hrows : members.rows.filter (fun row => row.1 ∉ Table.keys (.empty : Members)) =
      members.rows :=
    List.filter_eq_self.mpr fun _ _ => rfl
  exact (congrArg Table.ofRows hrows).trans h.ofRows_rows

namespace Store

variable {store : Store} {count : Counts} {access sourceAccess : Access} {source target : Value}
  {c : Container} {key : String} {members : Members}

-- The members of a container. One that is not there has none.
def membersOf (store : Store) (c : Container) : Members :=
  (store.members.get? c).getD .empty

-- Makes a container that has members from the start.
def allocateWith (store : Store) (access : Access) (members : Members) : Store :=
  { store.allocate access with
    members := (store.allocate access).members.set (store.next access) members }

-- A value for the container that is made next. Nothing was stored in this container, and it has no
-- alias.
structure Fresh (store : Store) (access : Access) (target : Value) : Prop where
  container : access.container? target = some (store.next access)
  absent : store.members.get? (store.next access) = none
  unaliased : ∀ pair ∈ store.aliases, pair.1.root ≠ .single target

theorem members_allocateWith (store : Store) (access : Access) (members : Members) :
    (store.allocateWith access members).members =
      store.members.set (store.next access) members := by
  unfold allocateWith
  rw [(store.allocate_eq access).1, Map.set_set]

theorem aliases_allocateWith (store : Store) (access : Access) (members : Members) :
    (store.allocateWith access members).aliases = store.aliases :=
  (store.allocate_eq access).2

theorem allocate_eq_allocateWith (store : Store) (access : Access) :
    store.allocate access = store.allocateWith access .empty := by
  have hset : (store.allocate access).members =
      (store.allocate access).members.set (store.next access) .empty := by
    rw [(store.allocate_eq access).1, Map.set_set]
  unfold allocateWith
  rw [← hset]

theorem put_allocateWith (store : Store) (access : Access) (members : Members) (key : String)
    (entry : Entry) :
    (store.allocateWith access members).put (store.next access) key entry =
      store.allocateWith access (members.set key entry) := by
  unfold put allocateWith
  simp only [Map.get?_set_self, Option.getD_some, Map.set_set]

theorem get?_allocateWith_of_ne (h : c ≠ store.next access) :
    (store.allocateWith access members).members.get? c = store.members.get? c := by
  rw [members_allocateWith, Map.get?_set_of_ne _ _ h]

theorem get?_allocateWith_next (store : Store) (access : Access) (members : Members) :
    (store.allocateWith access members).members.get? (store.next access) = some members := by
  rw [members_allocateWith, Map.get?_set_self]

theorem membersOf_allocateWith_next (store : Store) (access : Access) (members : Members) :
    (store.allocateWith access members).membersOf (store.next access) = members := by
  rw [membersOf, get?_allocateWith_next]
  rfl

theorem fresh_of_consistent (h : store.Consistent count) (hroom : count access < 2 ^ 32)
    (htarget : access.container? target = some (store.next access)) :
    store.Fresh access target where
  container := htarget
  absent := by
    refine Option.not_isSome_iff_eq_none.mp fun hsome => ?_
    exact not_within_next h hroom (h.present _ hsome)
  unaliased := root_ne_single_next h hroom htarget

-- The container that is made next is not the one that a member is found in.
theorem Fresh.ne_next {entry : Entry} (h : store.Fresh access target)
    (hfound : store.entryAt c key = some entry) : c ≠ store.next access := by
  rintro rfl
  rw [entryAt, h.absent] at hfound
  cases hfound

-- A member that is found in another container is set in the new one.
theorem copyMembers_cons {entry : Entry} (h : store.Fresh access target)
    (hsource : sourceAccess.container? source = some c) (hfound : store.entryAt c key = some entry)
    (keys : List String) :
    (store.allocateWith access members).copyMembers source sourceAccess (key :: keys) target
      access = (store.allocateWith access (members.set key entry)).copyMembers source sourceAccess
        keys target access := by
  have hread : (store.allocateWith access members).read
      ((Path.ofValue source).member sourceAccess (.single key)) = entry := by
    rw [read_member hsource, entryAt, get?_allocateWith_of_ne (h.ne_next hfound), ← entryAt, hfound]
    rfl
  have hunaliased : ∀ pair ∈ (store.allocateWith access members).aliases,
      pair.1.root ≠ .single target := by
    rw [aliases_allocateWith]
    exact h.unaliased
  unfold copyMembers
  rw [List.foldl_cons, hread, write_single h.container hunaliased, put_allocateWith]

-- Rows that are found in another container come behind those of the new one, in their order.
theorem copyMembers_rows {front rows : List (String × Entry)} (h : store.Fresh access target)
    (hsource : sourceAccess.container? source = some c) (hdistinct : (rows.map Prod.fst).Nodup)
    (hfound : ∀ row ∈ rows, store.entryAt c row.1 = some row.2)
    (hnew : ∀ row ∈ rows, row.1 ∉ front.map Prod.fst) :
    (store.allocateWith access (.ofRows front)).copyMembers source sourceAccess
      (rows.map Prod.fst) target access = store.allocateWith access (.ofRows (front ++ rows)) := by
  induction rows generalizing front with
  | nil => rw [List.append_nil]; rfl
  | cons row rows ih =>
    obtain ⟨hrow, hrows⟩ := List.forall_mem_cons.mp hfound
    obtain ⟨hrowNew, hrowsNew⟩ := List.forall_mem_cons.mp hnew
    obtain ⟨hfirst, hrest⟩ := List.nodup_cons.mp hdistinct
    have hlater : ∀ other ∈ rows, other.1 ∉ (front ++ [row]).map Prod.fst := by
      intro other hother hmem
      rw [List.map_append, List.mem_append] at hmem
      rcases hmem with hmem | hmem
      · exact hrowsNew other hother hmem
      · exact hfirst (List.mem_singleton.mp hmem ▸ List.mem_map_of_mem hother)
    rw [List.map_cons, copyMembers_cons h hsource hrow, Table.ofRows_set _ hrowNew,
      ih hrest hrows hlater, List.append_assoc, List.singleton_append]

-- Looking up the keys of a container finds its rows.
theorem entryAt_of_mem_rows {row : String × Entry} (hrow : row ∈ (store.membersOf c).rows) :
    store.entryAt c row.1 = some row.2 := by
  unfold membersOf at hrow
  unfold entryAt
  cases hget : store.members.get? c with
  | none =>
    rw [hget] at hrow
    cases hrow
  | some members =>
    rw [hget] at hrow
    exact Table.get?_of_mem_rows hrow

theorem agrees_membersOf (hs : store.WellFormed) (c : Container) : (store.membersOf c).Agrees :=
  hs.agrees.getD c

theorem keys_ofValue (hs : store.WellFormed) (hsource : sourceAccess.container? source = some c) :
    store.keys sourceAccess (Path.ofValue source) = (store.membersOf c).keys := by
  have hread : (store.read (Path.ofValue source)).values = [source] := rfl
  rw [keys, hread, List.flatMap_singleton, hsource, Option.bind_some, ← Members.keys_getD]
  exact eraseDups_of_nodup (agrees_membersOf hs c).distinct

theorem membersOf_allocate (h : store.Fresh access target) (c : Container) :
    (store.allocate access).membersOf c = store.membersOf c := by
  unfold membersOf
  rw [(store.allocate_eq access).1]
  by_cases hc : c = store.next access
  · rw [hc, Map.get?_set_self, h.absent]
    rfl
  · rw [Map.get?_set_of_ne _ _ hc]

theorem keys_allocate (h : store.Fresh access target) (hs : store.WellFormed)
    (hsource : sourceAccess.container? source = some c) :
    (store.allocate access).keys sourceAccess (Path.ofValue source) = (store.membersOf c).keys := by
  rw [keys_ofValue (hs.allocate access) hsource, membersOf_allocate h]

-- Copying the members whose keys the new container lacks.
theorem copyMembers_lacking (h : store.Fresh access target) (hs : store.WellFormed)
    (hsource : sourceAccess.container? source = some c) (hm : members.Agrees) :
    (store.allocateWith access members).copyMembers source sourceAccess
      ((store.membersOf c).keys.filter fun key => key ∉ members.keys) target access =
        store.allocateWith access (members.orElse (store.membersOf c)) := by
  have hagrees := agrees_membersOf hs c
  have hkeys : (store.membersOf c).keys.filter (fun key => key ∉ members.keys) =
      ((store.membersOf c).rows.filter fun row => row.1 ∉ members.keys).map Prod.fst := by
    rw [← hagrees.map_fst_rows]
    exact List.filter_map
  have hcopied := @copyMembers_rows store access sourceAccess source target c members.rows
    ((store.membersOf c).rows.filter fun row => row.1 ∉ members.keys) h hsource
  rw [hm.ofRows_rows, ← hkeys] at hcopied
  apply hcopied
  · exact hagrees.distinct.filter _
  · exact fun row hrow => entryAt_of_mem_rows (List.mem_filter.mp hrow).1
  · rw [hm.map_fst_rows]
    exact fun row hrow => of_decide_eq_true (List.mem_filter.mp hrow).2

-- Copying all members is making a container that has them.
theorem copyMembers_keys (h : store.Fresh access target) (hs : store.WellFormed)
    (hsource : sourceAccess.container? source = some c) :
    (store.allocate access).copyMembers source sourceAccess
      ((store.allocate access).keys sourceAccess (Path.ofValue source)) target access =
        store.allocateWith access (store.membersOf c) := by
  have hcopied := copyMembers_lacking h hs hsource Table.agrees_empty
  rw [Members.filter_not_mem_empty, Members.empty_orElse (agrees_membersOf hs c)] at hcopied
  rwa [keys_allocate h hs hsource, allocate_eq_allocateWith]

theorem toObject_array (id : UInt32) (hs : store.WellFormed)
    (h : store.Fresh .field (.object store.nextObject standardClass)) :
    store.toObject (.array id) =
      (.object store.nextObject standardClass,
        store.allocateWith .field (store.membersOf (.array id))) :=
  congrArg (Prod.mk _) (copyMembers_keys h hs rfl)

theorem toArray_object (id : UInt32) (className : String) (hs : store.WellFormed)
    (h : store.Fresh .index (.array store.nextArray)) :
    store.toArray (.object id className) =
      (.array store.nextArray, store.allocateWith .index (store.membersOf (.object id))) :=
  congrArg (Prod.mk _) (copyMembers_keys h hs rfl)

theorem cloneObject_eq (id : UInt32) (className : String) (hs : store.WellFormed)
    (h : store.Fresh .field (.object store.nextObject className)) :
    store.cloneObject id className =
      (.object store.nextObject className,
        store.allocateWith .field (store.membersOf (.object id))) :=
  congrArg (Prod.mk _) (copyMembers_keys h hs rfl)

theorem unionArrays_eq (left right : UInt32) (hs : store.WellFormed)
    (h : store.Fresh .index (.array store.nextArray)) :
    store.unionArrays (.array left) (.array right) =
      (.array store.nextArray,
        store.allocateWith .index
          ((store.membersOf (.array left)).orElse (store.membersOf (.array right)))) := by
  have hleft : Access.index.container? (.array left) = some (.array left) := rfl
  have hright : Access.index.container? (.array right) = some (.array right) := rfl
  have hcopied := copyMembers_lacking h hs hright (agrees_membersOf hs (.array left))
  rw [← copyMembers_keys h hs hleft, ← keys_allocate h hs hleft, ← keys_allocate h hs hright]
    at hcopied
  exact congrArg (Prod.mk _) hcopied

theorem consistent_allocateWith (h : store.Consistent count) (access : Access)
    (hm : members.Within count) :
    (store.allocateWith access members).Consistent (count.add (.single access)) :=
  (consistent_allocate h access).set (within_next h access)
    fun key entry hentry => Entry.within_add (hm key entry hentry)

theorem wellFormed_allocateWith (h : store.WellFormed) (access : Access)
    (hm : members.Agrees) : (store.allocateWith access members).WellFormed :=
  (h.allocate access).set hm rfl rfl

theorem frame_allocateWith (h : store.Consistent count) (hroom : count access < 2 ^ 32)
    (members : Members) : Frame count store (store.allocateWith access members) where
  members c hc := by
    have hne : c ≠ store.next access := fun he => not_within_next h hroom (he ▸ hc)
    exact get?_allocateWith_of_ne hne
  aliases := store.aliases_allocateWith access members

end Store

end AbsEval
