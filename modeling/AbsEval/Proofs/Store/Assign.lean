import AbsEval.Proofs.Store.Lookup

namespace AbsEval.Store

variable {store : Store} {root : Entry} {steps : List Step} {step : Step} {entry : Entry}
  {container other : Container} {key : String} {keys : List String} {v : Value}

-- A write goes to the containers that the path without its last step leads to.
theorem target?_append (store : Store) (root : Entry) (steps : List Step) (step : Step) :
    store.target? ⟨root, steps ++ [step]⟩ = some
      { containers := (store.read ⟨root, steps⟩).values.filterMap step.access.container?
        selector := step.selector
        replaces := step.selector.keys.length == 1 && (store.read ⟨root, steps⟩).count == 1 &&
          ((store.read ⟨root, steps⟩).values.filterMap step.access.container?).length == 1 } := by
  simp [target?, Path.parent?]

theorem target?_singleton (store : Store) (root : Entry) (step : Step) :
    store.target? ⟨root, [step]⟩ = some
      { containers := root.values.filterMap step.access.container?
        selector := step.selector
        replaces := step.selector.keys.length == 1 && root.count == 1 &&
          (root.values.filterMap step.access.container?).length == 1 } :=
  target?_append store root [] step

-- The first of several steps can be taken beforehand.
theorem assign_cons (root : Entry) (first next : Step) (steps : List Step) (entry : Entry) :
    store.assign ⟨root, first :: next :: steps⟩ entry =
      store.assign ⟨store.readStep root first, next :: steps⟩ entry := by
  obtain ⟨front, last, hsplit⟩ : ∃ front last, next :: steps = front ++ [last] :=
    ⟨_, _, (List.dropLast_concat_getLast (List.cons_ne_nil next steps)).symm⟩
  have hread : store.read ⟨root, first :: front⟩ = store.read ⟨store.readStep root first, front⟩ :=
    rfl
  unfold assign
  rw [hsplit, ← List.cons_append, target?_append, target?_append, hread]

-- Only members are written to.
theorem assign_eq (store : Store) (path : Path) (entry : Entry) :
    ∃ members, store.assign path entry = { store with members } := by
  unfold assign
  split
  · exact ⟨store.members, rfl⟩
  · exact ⟨_, rfl⟩

theorem write_eq (store : Store) (path : Path) (entry : Entry) :
    ∃ members, store.write path entry = { store with members } := by
  refine List.foldlRecOn (motive := fun s : Store => ∃ members, s = { store with members }) _ _
    (store.assign_eq path entry) ?_
  rintro s ⟨members, rfl⟩ other -
  obtain ⟨members', h⟩ := assign_eq { store with members } other entry
  exact ⟨members', h⟩

theorem write_eq_assign (h : store.aliases = []) (path : Path) (entry : Entry) :
    store.write path entry = store.assign path entry := by
  simp [write, h]

namespace Agrees

variable {members : Members} {next : Store}

theorem set (h : store.Agrees) (hm : members.Agrees)
    (hnext : next.members = store.members.set container members) : next.Agrees := by
  intro d ms hd
  rw [hnext] at hd
  by_cases hdc : d = container
  · rw [hdc, Map.get?_set_self, Option.some.injEq] at hd
    exact hd ▸ hm
  · rw [Map.get?_set_of_ne _ _ hdc] at hd
    exact h d ms hd

theorem getD (h : store.Agrees) (c : Container) :
    Table.Agrees ((store.members.get? c).getD .empty) := by
  cases hget : store.members.get? c with
  | none => exact Table.agrees_empty
  | some members => exact h c members hget

-- What is set and merged at a key is recorded in both copies, so every write keeps them the same.
theorem assign (h : store.Agrees) (path : Path) (entry : Entry) :
    (store.assign path entry).Agrees := by
  unfold Store.assign
  split
  · exact h
  · next target _ =>
    refine List.foldlRecOn
      (motive := fun all : Map Container Members => Agrees { store with members := all })
      _ _ h fun all hall c _ => ?_
    exact hall.set (Members.agrees_write (hall.getD c) _ _ entry) rfl

end Agrees

-- A member of one container: a single key is replaced.
theorem assign_member {access : Access} (hc : access.container? v = some container)
    (selector : Selector) (entry : Entry) :
    store.assign ((Path.ofValue v).member access selector) entry =
      { store with
        members := store.members.set container (((store.members.get? container).getD .empty).write
          selector (selector.keys.length == 1) entry) } := by
  have hpath : (Path.ofValue v).member access selector = ⟨.single v, [⟨access, selector⟩]⟩ := rfl
  unfold assign
  rw [hpath, target?_singleton]
  simp [hc, Entry.count]

-- Replaces one member, whatever the store holds.
def put (store : Store) (container : Container) (key : String) (entry : Entry) : Store :=
  { store with
    members := store.members.set container
      (((store.members.get? container).getD .empty).set key entry) }

theorem assign_single {access : Access} (hc : access.container? v = some container)
    (key : String) (entry : Entry) :
    store.assign ((Path.ofValue v).member access (.single key)) entry =
      store.put container key entry :=
  assign_member hc (.single key) entry

theorem entryAt_put (store : Store) (container other : Container) (key name : String)
    (entry : Entry) :
    (store.put container key entry).entryAt other name =
      if other = container ∧ name = key then some entry else store.entryAt other name := by
  unfold put entryAt
  by_cases hc : other = container
  · subst hc
    rw [Map.get?_set_self, Option.bind_some]
    by_cases hk : name = key
    · rw [hk, Table.get?_set_self, if_pos ⟨rfl, rfl⟩]
    · rw [Table.get?_set_of_ne _ _ hk, if_neg fun h => hk h.2]
      cases store.members.get? other <;> rfl
  · rw [Map.get?_set_of_ne _ _ hc, if_neg fun h => hc h.1]

-- A member of a value that is the root of no alias.
theorem write_member {access : Access} (hc : access.container? v = some container)
    (ha : ∀ pair ∈ store.aliases, pair.1.root ≠ .single v) (selector : Selector) (entry : Entry) :
    store.write ((Path.ofValue v).member access selector) entry =
      { store with
        members := store.members.set container (((store.members.get? container).getD .empty).write
          selector (selector.keys.length == 1) entry) } := by
  have hnone : (store.aliases.filter fun pair =>
      pair.1 = (Path.ofValue v).member access selector) = [] := by
    refine List.filter_eq_nil_iff.mpr fun pair hpair => ?_
    rw [decide_eq_true_eq]
    exact fun h => ha pair hpair (congrArg Path.root h)
  unfold write
  rw [hnone, List.map_nil, List.foldl_nil, assign_member hc]

theorem write_single {access : Access} (hc : access.container? v = some container)
    (ha : ∀ pair ∈ store.aliases, pair.1.root ≠ .single v) (key : String) (entry : Entry) :
    store.write ((Path.ofValue v).member access (.single key)) entry =
      store.put container key entry :=
  write_member hc ha (.single key) entry

theorem mem_valuesAt_set {all : Map Container Members} {members : Members} :
    v ∈ ((all.set container members).get? other).elim [.null] (fun m => m.valuesAt key) ↔
      if other = container then v ∈ members.valuesAt key
      else v ∈ (all.get? other).elim [.null] (fun m => m.valuesAt key) := by
  split
  · next h =>
    rw [h, Map.get?_set_self]
    rfl
  · next h => rw [Map.get?_set_of_ne _ _ h]

theorem valuesAt_getD_empty (all : Map Container Members) :
    Members.valuesAt ((all.get? container).getD .empty) key =
      (all.get? container).elim [.null] fun m => m.valuesAt key := by
  cases all.get? container <;> rfl

-- Several containers or keys: the entry is added to all of them.
theorem mem_valuesAt_foldl_merge {all : Map Container Members} {containers : List Container} :
    v ∈ ((containers.foldl (fun all container => all.set container
        (((all.get? container).getD .empty).write (.names keys) false entry)) all).get? other).elim
        [.null] (fun m => m.valuesAt key) ↔
      v ∈ (all.get? other).elim [.null] (fun m => m.valuesAt key) ∨
        (other ∈ containers ∧ key ∈ keys ∧ v ∈ entry.values) := by
  induction containers generalizing all with
  | nil => simp
  | cons container containers ih =>
    rw [List.foldl_cons, ih, mem_valuesAt_set, List.mem_cons]
    by_cases h : other = container
    · subst h
      rw [if_pos rfl, Members.mem_valuesAt_write_merge, valuesAt_getD_empty]
      tauto
    · rw [if_neg h]
      tauto

theorem mem_valuesAt_assign_merge {path : Path} {target : Target}
    (ht : store.target? path = some target) (hs : target.selector = .names keys)
    (hr : target.replaces = false) :
    v ∈ (store.assign path entry).valuesAt container key ↔
      v ∈ store.valuesAt container key ∨
        (container ∈ target.containers ∧ key ∈ keys ∧ v ∈ entry.values) := by
  unfold assign valuesAt
  rw [ht]
  simp only [hs, hr]
  exact mem_valuesAt_foldl_merge

-- One container and one key: the entry takes the place of what was there.
theorem valuesAt_assign_replace {path : Path} {target : Target} {name : String}
    (ht : store.target? path = some target) (hs : target.selector = .names [name])
    (hc : target.containers = [other]) (hr : target.replaces) :
    (store.assign path entry).valuesAt container key =
      if container = other ∧ key = name then entry.values else store.valuesAt container key := by
  unfold assign valuesAt
  rw [ht]
  simp only [hs, hr, hc, List.foldl_cons, List.foldl_nil]
  by_cases h : container = other
  · subst h
    rw [Map.get?_set_self]
    simp only [Option.elim_some, true_and, Members.valuesAt_write_replace, valuesAt_getD_empty]
  · rw [Map.get?_set_of_ne _ _ h, if_neg (fun hn => h hn.1)]

end AbsEval.Store
