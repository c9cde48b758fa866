import AbsEval.Store.Basic
import Mathlib.Data.List.Nodup

namespace AbsEval

theorem eraseDups_of_nodup {α : Type} [BEq α] [LawfulBEq α] {xs : List α} (h : xs.Nodup) :
    xs.eraseDups = xs := by
  induction xs with
  | nil => rfl
  | cons x xs ih =>
    obtain ⟨hx, hxs⟩ := List.nodup_cons.mp h
    have hkept : xs.filter (fun y => !y == x) = xs := by
      refine List.filter_eq_self.mpr fun y hy => ?_
      have hne : y ≠ x := fun he => hx (he ▸ hy)
      simpa using hne
    rw [List.eraseDups_cons, hkept, ih hxs]

namespace Entry

@[simp] theorem mem_ofNonempty {vs : List Value} (h : vs ≠ []) {v : Value} :
    v ∈ (ofNonempty vs h).values ↔ v ∈ vs := by
  simp [ofNonempty, List.mem_eraseDups]

@[simp] theorem values_single (v : Value) : (single v).values = [v] := rfl

@[simp] theorem mem_union {e f : Entry} {v : Value} :
    v ∈ (e.union f).values ↔ v ∈ e.values ∨ v ∈ f.values := by
  simp [union]

@[simp] theorem mem_insert {e : Entry} {u v : Value} :
    v ∈ (e.insert u).values ↔ v ∈ e.values ∨ v = u := by
  simp [insert]

theorem mem_ofList?_getD {vs : List Value} {e : Entry} {v : Value} (h : v ∈ vs) :
    v ∈ ((ofList? vs).getD e).values := by
  have hne : vs ≠ [] := List.ne_nil_of_mem h
  simp [ofList?, hne, h]

theorem ofList?_values (e : Entry) : ofList? e.values = some e := by
  obtain ⟨vs, hne, hdistinct⟩ := e
  simp [ofList?, ofNonempty, hne, eraseDups_of_nodup hdistinct]

end Entry

namespace Map

variable {κ β : Type} [DecidableEq κ] {m : Map κ β} {key : κ}

theorem isSome_get?_iff : (m.get? key).isSome ↔ key ∈ m.keys := by
  obtain ⟨rows⟩ := m
  show (find? key rows).isSome ↔ key ∈ rows.map Prod.fst
  induction rows with
  | nil => simp [find?]
  | cons row rows ih =>
    by_cases h : row.1 = key
    · simp [find?, h]
    · simp [find?, h, Ne.symm h, ih]

theorem keys_set (m : Map κ β) (key : κ) (b : β) :
    (m.set key b).keys = if (m.get? key).isSome then m.keys else m.keys ++ [key] := by
  obtain ⟨rows⟩ := m
  show (put key b rows).map Prod.fst =
    if (find? key rows).isSome then rows.map Prod.fst else rows.map Prod.fst ++ [key]
  induction rows with
  | nil => rfl
  | cons row rows ih =>
    obtain ⟨k, old⟩ := row
    by_cases h : k = key
    · simp [put, find?, h]
    · simp only [put, find?, if_neg h, List.map_cons, ih]
      split <;> rfl

end Map

namespace Table

variable {κ β : Type}

-- Both copies have the same keys, each of them once.
structure Agrees (t : Table κ β) : Prop where
  same : t.values.keys = t.keys
  distinct : t.keys.Nodup

theorem agrees_empty : (empty : Table κ β).Agrees :=
  ⟨rfl, List.nodup_nil⟩

variable [DecidableEq κ] {t : Table κ β} {key other : κ} {b : β}

theorem get?_of_mem_rows {row : κ × β} (h : row ∈ t.rows) : t.get? row.1 = some row.2 := by
  obtain ⟨key, -, hrow⟩ := List.mem_filterMap.mp h
  obtain ⟨b, hget, rfl⟩ := Option.map_eq_some_iff.mp hrow
  exact hget

namespace Agrees

theorem mem_keys_iff (h : t.Agrees) : key ∈ t.keys ↔ (t.get? key).isSome := by
  rw [← h.same]
  exact Map.isSome_get?_iff.symm

theorem mem_rows_of_get? (h : t.Agrees) (hget : t.get? key = some b) : (key, b) ∈ t.rows := by
  have hkey : key ∈ t.keys := h.mem_keys_iff.mpr (Option.isSome_of_eq_some hget)
  exact List.mem_filterMap.mpr ⟨key, hkey, by rw [hget]; rfl⟩

theorem set (h : t.Agrees) (key : κ) (b : β) : (t.set key b).Agrees := by
  constructor
  · show (t.values.set key b).keys = if (t.values.get? key).isSome then t.keys else t.keys ++ [key]
    rw [Map.keys_set, h.same]
  · show (if (t.get? key).isSome then t.keys else t.keys ++ [key]).Nodup
    split
    · exact h.distinct
    · next hnew =>
      rw [← List.concat_eq_append]
      exact h.distinct.concat (mt h.mem_keys_iff.mp hnew)

theorem mem_keys_set (h : t.Agrees) :
    other ∈ (t.set key b).keys ↔ other = key ∨ other ∈ t.keys := by
  rw [(h.set key b).mem_keys_iff, h.mem_keys_iff]
  by_cases hk : other = key
  · simp [hk, get?_set_self]
  · simp [hk, get?_set_of_ne]

end Agrees

-- Where something is found already, the order of the keys stays as it is either way.
theorem replace_eq_set (h : (t.get? key).isSome) : t.replace key b = t.set key b := by
  unfold replace set
  rw [if_pos h]

end Table

namespace Members

-- What may be found at a key. A member that is not there reads as null.
def valuesAt (members : Members) (key : String) : List Value :=
  (members.get? key).elim [.null] Entry.values

variable {members : Members} {key other : String} {entry : Entry} {v : Value}

theorem valuesAt_set_self : valuesAt (members.set key entry) key = entry.values := by
  simp [valuesAt, Table.get?_set_self]

theorem valuesAt_set_of_ne (h : other ≠ key) :
    valuesAt (members.set key entry) other = members.valuesAt other := by
  simp [valuesAt, Table.get?_set_of_ne _ _ h]

-- A merge sets its key as well.
theorem merge_eq_set (members : Members) (key : String) (entry : Entry) :
    members.merge key entry =
      members.set key ((members.get? key).elim (entry.insert .null) fun old => old.union entry) := by
  unfold merge
  cases hget : members.get? key with
  | none => rfl
  | some old => exact Table.replace_eq_set (Option.isSome_of_eq_some hget)

theorem mem_valuesAt_merge : v ∈ (members.merge key entry).valuesAt other ↔
    v ∈ members.valuesAt other ∨ (other = key ∧ v ∈ entry.values) := by
  rw [merge_eq_set]
  by_cases hk : other = key
  · subst hk
    rw [valuesAt_set_self, valuesAt]
    cases members.get? other with
    | none => simp [or_comm]
    | some old => simp
  · simp [valuesAt_set_of_ne hk, hk]

theorem mem_valuesAt_foldl_merge {keys : List String} :
    v ∈ valuesAt (keys.foldl (fun m key => merge m key entry) members) other ↔
      v ∈ members.valuesAt other ∨ (other ∈ keys ∧ v ∈ entry.values) := by
  induction keys generalizing members with
  | nil => simp
  | cons key keys ih =>
    rw [List.foldl_cons, ih, mem_valuesAt_merge, List.mem_cons, or_assoc, ← or_and_right]

-- Replacing keeps nothing of what was there.
theorem valuesAt_write_replace (key : String) :
    valuesAt (members.write (.names [key]) true entry) other =
      if other = key then entry.values else members.valuesAt other := by
  show valuesAt (members.set key entry) other = _
  split
  · next h => rw [h, valuesAt_set_self]
  · next h => exact valuesAt_set_of_ne h

-- Merging adds to the keys that are named.
theorem mem_valuesAt_write_merge {keys : List String} :
    v ∈ valuesAt (members.write (.names keys) false entry) other ↔
      v ∈ members.valuesAt other ∨ (other ∈ keys ∧ v ∈ entry.values) :=
  mem_valuesAt_foldl_merge

-- An unknown key adds to the keys that are present.
theorem mem_valuesAt_write_any {replaces : Bool} :
    v ∈ valuesAt (members.write .any replaces entry) other ↔
      v ∈ members.valuesAt other ∨ (other ∈ members.keys ∧ v ∈ entry.values) :=
  mem_valuesAt_foldl_merge

-- A write sets keys that its selector may touch, one after the other.
theorem write_induction {selector : Selector} {replaces : Bool} {P : Members → Prop}
    (hmembers : P members)
    (hset : ∀ m key entry, selector.mayTouch key → P m → P (m.set key entry)) :
    P (members.write selector replaces entry) := by
  have hmerge : ∀ m key entry, selector.mayTouch key → P m → P (merge m key entry) := by
    intro m key entry hkey hm
    rw [merge_eq_set]
    exact hset m key _ hkey hm
  cases selector with
  | any => exact List.foldlRecOn _ _ hmembers fun m hm key _ => hmerge m key entry rfl hm
  | names keys =>
    refine List.foldlRecOn _ _ hmembers fun m hm key hkey => ?_
    have htouch : (Selector.names keys).mayTouch key := decide_eq_true hkey
    split
    · exact hset m key entry htouch hm
    · exact hmerge m key entry htouch hm

theorem agrees_write (h : members.Agrees) (selector : Selector) (replaces : Bool)
    (entry : Entry) : (members.write selector replaces entry).Agrees :=
  write_induction (P := Table.Agrees) h fun _ key entry _ hm => hm.set key entry

theorem mem_keys_foldl {keys : List String} {f : Members → String → Members}
    (hf : ∀ m key, ∃ entry, f m key = m.set key entry) (h : members.Agrees) :
    other ∈ (keys.foldl f members).keys ↔ other ∈ keys ∨ other ∈ members.keys := by
  induction keys generalizing members with
  | nil => simp
  | cons key keys ih =>
    obtain ⟨entry, hentry⟩ := hf members key
    rw [List.foldl_cons, hentry, ih (h.set key entry), h.mem_keys_set, List.mem_cons]
    tauto

-- A write makes the named keys present, an unknown key none.
theorem mem_keys_write {selector : Selector} {replaces : Bool} (h : members.Agrees) :
    other ∈ (members.write selector replaces entry).keys ↔
      other ∈ selector.keys ∨ other ∈ members.keys := by
  cases selector with
  | names keys =>
    refine mem_keys_foldl (fun m key => ?_) h
    split
    · exact ⟨entry, rfl⟩
    · exact ⟨_, merge_eq_set m key entry⟩
  | any =>
    simp only [write, Selector.keys, List.not_mem_nil, false_or]
    rw [mem_keys_foldl (fun m key => ⟨_, merge_eq_set m key entry⟩) h]
    tauto

theorem mem_read_of_mayTouch {selector : Selector} (h : members.Agrees) (hk : selector.mayTouch key)
    (hv : v ∈ members.valuesAt key) : v ∈ members.read selector := by
  cases selector with
  | names keys =>
    simp only [Selector.mayTouch, decide_eq_true_eq] at hk
    exact List.mem_flatMap.mpr ⟨key, hk, hv⟩
  | any =>
    simp only [read, List.mem_append, List.mem_flatMap, List.mem_singleton]
    unfold valuesAt at hv
    cases hget : members.get? key with
    | none => exact .inr (by simpa [hget] using hv)
    | some e => exact .inl ⟨(key, e), h.mem_rows_of_get? hget, by simpa [hget] using hv⟩

theorem keys_getD (found : Option Members) :
    Table.keys (found.getD .empty) = found.elim [] Table.keys := by
  cases found <;> rfl

theorem read_single : members.read (.single key) = members.valuesAt key := by
  simp [read, Selector.single, valuesAt]

end Members

namespace Store

-- In every container both copies of the keys are the same.
def Agrees (store : Store) : Prop :=
  ∀ c members, store.members.get? c = some members → members.Agrees

-- What may be found at a key of a container.
def valuesAt (store : Store) (container : Container) (key : String) : List Value :=
  (store.members.get? container).elim [.null] fun members => members.valuesAt key

-- The keys that are recorded for a container.
def keysAt (store : Store) (c : Container) : List String :=
  (store.members.get? c).elim [] Table.keys

-- The entry of a member, if it is there.
def entryAt (store : Store) (container : Container) (key : String) : Option Entry :=
  (store.members.get? container).bind fun members => members.get? key

variable {store : Store} {container other : Container} {key : String} {entry : Entry}
  {step : Step} {base : Entry} {v w : Value}

theorem valuesAt_of_members {next : Store}
    (h : next.members.get? container = store.members.get? container) :
    next.valuesAt container key = store.valuesAt container key := by
  simp [valuesAt, h]

theorem mem_readMember (hs : store.Agrees) (hc : step.access.container? v = some container)
    (hk : step.selector.mayTouch key) (hw : w ∈ store.valuesAt container key) :
    w ∈ store.readMember step v := by
  unfold valuesAt at hw
  simp only [readMember, hc]
  cases hget : store.members.get? container with
  | none => simpa [hget] using hw
  | some members =>
    rw [hget] at hw
    exact Members.mem_read_of_mayTouch (hs container members hget) hk hw

theorem mem_readStep (hv : v ∈ base.values) (hw : w ∈ store.readMember step v) :
    w ∈ (store.readStep base step).values :=
  Entry.mem_ofList?_getD (List.mem_flatMap.mpr ⟨v, hv, hw⟩)

-- Past a value without members, only values without members are found.
theorem exists_readMember_dead (store : Store) (h : step.access.container? v = none) :
    ∃ w ∈ store.readMember step v, ∀ access : Access, access.container? w = none := by
  have hnull : ∀ access : Access, access.container? Value.null = none := by
    intro access
    cases access <;> rfl
  have hany : ∀ (kind : Kind) (access : Access), access.container? (Value.any kind) = none := by
    intro kind access
    cases access <;> rfl
  simp only [readMember, h]
  split
  · exact ⟨_, List.mem_singleton.mpr rfl, hany _⟩
  · exact ⟨_, List.mem_singleton.mpr rfl, hany _⟩
  · split
    · exact ⟨_, List.mem_singleton.mpr rfl, hany _⟩
    · exact ⟨_, List.mem_singleton.mpr rfl, hnull⟩
  · split
    · exact ⟨_, List.mem_singleton.mpr rfl, hany _⟩
    · exact ⟨_, List.mem_singleton.mpr rfl, hnull⟩
  · exact ⟨_, List.mem_singleton.mpr rfl, hnull⟩

theorem valuesAt_eq (store : Store) (container : Container) (key : String) :
    store.valuesAt container key =
      ((store.entryAt container key).getD (.single .null)).values := by
  unfold valuesAt entryAt Members.valuesAt
  cases store.members.get? container with
  | none => rfl
  | some members => cases hget : members.get? key <;> simp [hget]

theorem readMember_single {access : Access} (hc : access.container? v = some container) :
    store.readMember ⟨access, .single key⟩ v = store.valuesAt container key := by
  simp only [readMember, hc, valuesAt]
  cases store.members.get? container with
  | none => rfl
  | some members => exact Members.read_single

theorem read_ofValue_member (store : Store) (v : Value) (access : Access) (selector : Selector) :
    store.read ((Path.ofValue v).member access selector) =
      (Entry.ofList? (store.readMember ⟨access, selector⟩ v)).getD (.single .null) := by
  show store.readStep (.single v) ⟨access, selector⟩ = _
  rw [readStep, Entry.values_single, List.flatMap_singleton]

-- Reading one key of one container finds its entry as it is stored.
theorem read_member {access : Access} (hc : access.container? v = some container) :
    store.read ((Path.ofValue v).member access (.single key)) =
      (store.entryAt container key).getD (.single .null) := by
  rw [read_ofValue_member, readMember_single hc, valuesAt_eq, Entry.ofList?_values,
    Option.getD_some]

theorem mem_read_member {access : Access} (hc : access.container? v = some container) :
    w ∈ (store.read ((Path.ofValue v).member access (.single key))).values ↔
      w ∈ store.valuesAt container key := by
  rw [read_member hc, valuesAt_eq]

end Store

end AbsEval
