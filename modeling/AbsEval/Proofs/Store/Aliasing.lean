import AbsEval.Proofs.Store.Bookkeeping
import Mathlib.Data.Set.Basic

namespace AbsEval

-- One member of one array.
structure Slot where
  array : UInt32
  key : String
deriving DecidableEq

def Slot.path (slot : Slot) : Path :=
  (Path.ofValue (.array slot.array)).member .index (.single slot.key)

theorem Slot.path_inj {p q : Slot} : p.path = q.path ↔ p = q := by
  refine ⟨fun h => ?_, congrArg path⟩
  have hroot : [Value.array p.array] = [Value.array q.array] :=
    congrArg (fun path => path.root.values) h
  have hsteps : [Step.mk .index (.single p.key)] = [Step.mk .index (.single q.key)] :=
    congrArg Path.steps h
  obtain ⟨array, key⟩ := p
  obtain ⟨array', key'⟩ := q
  cases hroot
  cases hsteps
  rfl

def Entry.toSet (e : Entry) : Set Value := {v | v ∈ e.values}

namespace Store

-- What may be found at a slot.
def content (store : Store) (slot : Slot) : Set Value :=
  (store.read slot.path).toSet

-- What may be found at one of several slots.
def contents (store : Store) (slots : List Slot) : Set Value :=
  {v | ∃ slot ∈ slots, v ∈ store.content slot}

def Linked (store : Store) (p q : Slot) : Prop :=
  (p.path, q.path) ∈ store.aliases

instance (store : Store) (p q : Slot) : Decidable (store.Linked p q) :=
  inferInstanceAs (Decidable (_ ∈ _))

-- Only slots are aliased, and in both directions.
structure LinksSlots (store : Store) : Prop where
  exists_slots : ∀ pair ∈ store.aliases, ∃ p q : Slot, pair = (p.path, q.path)
  symm : ∀ {p q : Slot}, store.Linked p q → store.Linked q p

-- Aliased paths hold the same values.
def AliasesAgree (store : Store) : Prop :=
  ∀ p q, (p, q) ∈ store.aliases → (store.read p).toSet = (store.read q).toSet

variable {store : Store} {slot p q : Slot} {others : List Slot} {entry : Entry}

theorem aliasesAgree_iff (h : store.LinksSlots) :
    store.AliasesAgree ↔ ∀ p q, store.Linked p q → store.content p = store.content q := by
  refine ⟨fun hagree p q => hagree p.path q.path, fun hlinked path path' hpair => ?_⟩
  obtain ⟨p, q, hpq⟩ := h.exists_slots _ hpair
  cases hpq
  exact hlinked p q hpair

theorem content_eq (store : Store) (slot : Slot) :
    store.content slot = {v | v ∈ store.valuesAt (.array slot.array) slot.key} :=
  Set.ext fun _ => mem_read_member rfl

-- A slot is a single container and a single key, so what was there is replaced.
theorem content_assign (store : Store) (slot : Slot) (entry : Entry) :
    (store.assign slot.path entry).content = Function.update store.content slot entry.toSet := by
  funext other
  have htarget := store.target?_singleton (.single (.array slot.array))
    ⟨.index, .names [slot.key]⟩
  have hvalues : (store.assign slot.path entry).valuesAt (.array other.array) other.key =
      if Container.array other.array = .array slot.array ∧ other.key = slot.key then entry.values
      else store.valuesAt (.array other.array) other.key :=
    valuesAt_assign_replace htarget rfl rfl rfl
  rw [content_eq, hvalues]
  by_cases h : other = slot
  · rw [h, Function.update_self, if_pos ⟨rfl, rfl⟩]
    rfl
  · have hne : ¬(Container.array other.array = .array slot.array ∧ other.key = slot.key) := by
      rintro ⟨harray, hkey⟩
      cases other
      cases slot
      cases harray
      cases hkey
      exact h rfl
    rw [Function.update_of_ne h, if_neg hne, content_eq]

theorem content_foldl_assign {paths : List Path} (h : ∀ path ∈ paths, ∃ p : Slot, path = p.path) :
    (paths.foldl (fun s path => s.assign path entry) store).content slot =
      if slot.path ∈ paths then entry.toSet else store.content slot := by
  induction paths generalizing store with
  | nil => simp
  | cons path paths ih =>
    obtain ⟨⟨p, rfl⟩, hpaths⟩ := List.forall_mem_cons.mp h
    rw [List.foldl_cons, ih hpaths, content_assign]
    by_cases hrest : slot.path ∈ paths
    · simp [hrest]
    · by_cases hp : slot = p
      · subst hp
        simp
      · have hne : slot.path ≠ p.path := mt Slot.path_inj.mp hp
        simp [hrest, hne, Function.update_of_ne hp]

-- A write goes to the slot and to those linked with it, and not beyond.
theorem content_write (h : store.LinksSlots) (slot : Slot) (entry : Entry) (p : Slot) :
    (store.write slot.path entry).content p =
      if p = slot ∨ store.Linked slot p then entry.toSet else store.content p := by
  have hpaths : ∀ path ∈ (store.aliases.filter fun pair => pair.1 = slot.path).map Prod.snd,
      ∃ p : Slot, path = p.path := by
    intro path hpath
    obtain ⟨pair, hpair, rfl⟩ := List.mem_map.mp hpath
    obtain ⟨p, q, hpq⟩ := h.exists_slots pair (List.mem_filter.mp hpair).1
    exact ⟨q, by rw [hpq]⟩
  have hmem : p.path ∈ (store.aliases.filter fun pair => pair.1 = slot.path).map Prod.snd ↔
      store.Linked slot p := by
    simp [Linked]
  unfold write
  rw [content_foldl_assign hpaths, content_assign]
  by_cases hlinked : store.Linked slot p
  · rw [if_pos (hmem.mpr hlinked), if_pos (.inr hlinked)]
  · rw [if_neg (mt hmem.mp hlinked)]
    by_cases hp : p = slot
    · subst hp
      simp
    · rw [Function.update_of_ne hp, if_neg (by tauto)]

-- The slot that is aliased takes over what its new aliases hold, and nothing else is written.
theorem content_addAliases (store : Store) (slot : Slot) (h : others ≠ []) :
    (store.addAliases slot.path (others.map Slot.path)).content =
      Function.update store.content slot (store.contents others) := by
  have hne : ((others.map Slot.path).flatMap fun path => (store.read path).values) ≠ [] := by
    obtain ⟨other, rest, rfl⟩ := List.exists_cons_of_ne_nil h
    simp [(store.read other.path).nonempty]
  have hfound : (Entry.ofNonempty _ hne).toSet = store.contents others := by
    ext v
    simp [Entry.toSet, contents, content]
  have hlist : Entry.ofList? ((others.map Slot.path).flatMap fun path => (store.read path).values) =
      some (.ofNonempty _ hne) := dif_pos hne
  have hread : ∀ s : Store, ∀ aliases, ({ s with aliases } : Store).content = s.content :=
    fun _ _ => rfl
  unfold addAliases
  dsimp only
  rw [hread, hlist, Option.elim_some, content_assign, hfound]

theorem linked_addAliases :
    (store.addAliases slot.path (others.map Slot.path)).Linked p q ↔
      store.Linked p q ∨ p = slot ∧ q ∈ others ∨ q = slot ∧ p ∈ others := by
  unfold Linked
  rw [mem_aliases_addAliases]
  simp only [List.mem_map, Prod.mk.injEq, Slot.path_inj, exists_exists_and_eq_and]
  constructor
  · rintro (h | ⟨other, hother, ⟨rfl, rfl⟩ | ⟨rfl, rfl⟩⟩)
    · exact .inl h
    · exact .inr (.inl ⟨rfl, hother⟩)
    · exact .inr (.inr ⟨rfl, hother⟩)
  · rintro (h | ⟨rfl, hq⟩ | ⟨rfl, hp⟩)
    · exact .inl h
    · exact .inr ⟨q, hq, .inl ⟨rfl, rfl⟩⟩
    · exact .inr ⟨p, hp, .inr ⟨rfl, rfl⟩⟩

theorem aliases_write (store : Store) (path : Path) (entry : Entry) :
    (store.write path entry).aliases = store.aliases := by
  obtain ⟨members, h⟩ := store.write_eq path entry
  rw [h]

end Store

-- What is done to slots.
inductive SlotCommand where
  | write (slot : Slot) (entry : Entry)
  | link (slot : Slot) (others : List Slot)

namespace SlotCommand

def perform (store : Store) : SlotCommand → Store
  | write slot entry => store.write slot.path entry
  | link slot others => store.addAliases slot.path (others.map Slot.path)

-- All aliases are reached by what is done. A write goes one link far, so a slot that is two links
-- away is linked directly or holds the values already. Linking writes to one slot only, so all that
-- this slot is or becomes linked with hold what it takes over.
def ReachesAll (store : Store) : SlotCommand → Prop
  | write slot entry => ∀ p q, store.Linked slot p → store.Linked p q →
      q = slot ∨ store.Linked slot q ∨ store.content q = entry.toSet
  | link slot others => others ≠ [] → ∀ p, p ∈ others ∨ store.Linked slot p →
      p = slot ∨ store.content p = store.contents others

variable {store : Store} {slot : Slot} {others : List Slot} {entry : Entry}

theorem linksSlots_perform (h : store.LinksSlots) (command : SlotCommand) :
    (command.perform store).LinksSlots := by
  cases command with
  | write slot entry =>
    have haliases := store.aliases_write slot.path entry
    refine ⟨fun pair hpair => h.exists_slots pair (haliases ▸ hpair), fun {p q} hpq => ?_⟩
    simp only [perform, Store.Linked, haliases] at hpq ⊢
    exact h.symm hpq
  | link slot others =>
    refine ⟨fun pair hpair => ?_, fun {p q} hpq => ?_⟩
    · rcases Store.mem_aliases_addAliases.mp hpair with hpair | ⟨path, hpath, hpair⟩
      · exact h.exists_slots pair hpair
      · obtain ⟨other, -, rfl⟩ := List.mem_map.mp hpath
        rcases hpair with rfl | rfl
        · exact ⟨slot, other, rfl⟩
        · exact ⟨other, slot, rfl⟩
    · rw [perform, Store.linked_addAliases] at hpq ⊢
      exact hpq.imp h.symm Or.symm

theorem agree_write_iff (h : store.LinksSlots)
    (hagree : ∀ p q, store.Linked p q → store.content p = store.content q) :
    (∀ p q, store.Linked p q →
      (store.write slot.path entry).content p = (store.write slot.path entry).content q) ↔
    (write slot entry).ReachesAll store := by
  simp only [Store.content_write h]
  constructor
  · intro hwritten p q hp hpq
    have heq := hwritten p q hpq
    rw [if_pos (.inr hp)] at heq
    by_cases hq : q = slot ∨ store.Linked slot q
    · tauto
    · rw [if_neg hq] at heq
      exact .inr (.inr heq.symm)
  · intro hreaches
    -- From a slot that is written to, a link leads to another such slot or to the same values.
    have hout : ∀ p q, store.Linked p q → p = slot ∨ store.Linked slot p →
        ¬(q = slot ∨ store.Linked slot q) → store.content q = entry.toSet := by
      rintro p q hpq (rfl | hp) hq
      · exact absurd (.inr hpq) hq
      · have hcases := hreaches p q hp hpq
        tauto
    intro p q hpq
    by_cases hp : p = slot ∨ store.Linked slot p
    · by_cases hq : q = slot ∨ store.Linked slot q
      · rw [if_pos hp, if_pos hq]
      · rw [if_pos hp, if_neg hq, hout p q hpq hp hq]
    · by_cases hq : q = slot ∨ store.Linked slot q
      · rw [if_neg hp, if_pos hq, hout q p (h.symm hpq) hq hp]
      · rw [if_neg hp, if_neg hq, hagree p q hpq]

theorem agree_link_iff (h : store.LinksSlots) (hne : others ≠ [])
    (hagree : ∀ p q, store.Linked p q → store.content p = store.content q) :
    (∀ p q, (store.addAliases slot.path (others.map Slot.path)).Linked p q →
      Function.update store.content slot (store.contents others) p =
        Function.update store.content slot (store.contents others) q) ↔
    (link slot others).ReachesAll store := by
  simp only [Store.linked_addAliases]
  constructor
  · intro hlinked _ p hp
    have heq := hlinked slot p (by tauto)
    by_cases hslot : p = slot
    · exact .inl hslot
    · rw [Function.update_self, Function.update_of_ne hslot] at heq
      exact .inr heq.symm
  · intro hreaches
    -- Everything around the slot holds what it takes over, and the slot itself too.
    have haround : ∀ p, p ∈ others ∨ store.Linked slot p →
        Function.update store.content slot (store.contents others) p =
          Function.update store.content slot (store.contents others) slot := by
      intro p hp
      by_cases hslot : p = slot
      · rw [hslot]
      · rw [Function.update_self, Function.update_of_ne hslot]
        exact (hreaches hne p hp).resolve_left hslot
    rintro p q (hpq | ⟨rfl, hq⟩ | ⟨rfl, hp⟩)
    · by_cases hp : p = slot
      · subst hp
        exact (haround q (.inr hpq)).symm
      · by_cases hq : q = slot
        · subst hq
          exact haround p (.inr (h.symm hpq))
        · rw [Function.update_of_ne hp, Function.update_of_ne hq, hagree p q hpq]
    · exact (haround q (.inl hq)).symm
    · exact haround p (.inl hp)

-- Aliases that agree before an operation agree after it exactly if it reaches them all.
theorem aliasesAgree_perform_iff (h : store.LinksSlots) (hagree : store.AliasesAgree)
    (command : SlotCommand) :
    (command.perform store).AliasesAgree ↔ command.ReachesAll store := by
  rw [Store.aliasesAgree_iff (linksSlots_perform h command)]
  rw [Store.aliasesAgree_iff h] at hagree
  cases command with
  | write slot entry =>
    rw [← agree_write_iff h hagree]
    simp only [perform, Store.Linked, store.aliases_write]
  | link slot others =>
    by_cases hne : others = []
    · subst hne
      exact iff_of_true hagree fun h => absurd rfl h
    · rw [← agree_link_iff h hne hagree]
      simp only [perform, store.content_addAliases slot hne]

def performAll (store : Store) (commands : List SlotCommand) : Store :=
  commands.foldl perform store

-- Every operation of a run reaches all aliases in the state in which it is performed.
def ReachThroughout (store : Store) : List SlotCommand → Prop
  | [] => True
  | command :: commands =>
    command.ReachesAll store ∧ ReachThroughout (command.perform store) commands

theorem agree_throughout_iff (h : store.LinksSlots) (hagree : store.AliasesAgree)
    (commands : List SlotCommand) :
    (∀ front rest, commands = front ++ rest → (performAll store front).AliasesAgree) ↔
      ReachThroughout store commands := by
  induction commands generalizing store with
  | nil =>
    refine iff_of_true (fun front rest hsplit => ?_) trivial
    rw [(List.append_eq_nil_iff.mp hsplit.symm).1]
    exact hagree
  | cons command commands ih =>
    rw [ReachThroughout, ← aliasesAgree_perform_iff h hagree command]
    have hlinks := linksSlots_perform h command
    constructor
    · intro hall
      have hnext := hall [command] commands rfl
      refine ⟨hnext, (ih hlinks hnext).mp fun front rest hsplit => ?_⟩
      exact hall (command :: front) rest (congrArg (List.cons command) hsplit)
    · rintro ⟨hnext, hrest⟩ front rest hsplit
      cases front with
      | nil => exact hagree
      | cons head front =>
        obtain ⟨rfl, htail⟩ := List.cons.inj hsplit
        exact (ih hlinks hnext).mpr hrest front rest htail

-- Aliases agree in every state of a run exactly if every operation of it reaches them all.
theorem aliases_agree_iff (h : store.aliases = []) (commands : List SlotCommand) :
    (∀ front rest, commands = front ++ rest → (performAll store front).AliasesAgree) ↔
      ReachThroughout store commands := by
  have hlinks : store.LinksSlots := by
    constructor
    · intro pair hpair
      rw [h] at hpair
      cases hpair
    · intro p q hpq
      rw [Store.Linked, h] at hpq
      cases hpq
  have hagree : store.AliasesAgree := by
    intro p q hpq
    rw [h] at hpq
    cases hpq
  exact agree_throughout_iff hlinks hagree commands

-- Three members of one array.
def first : Slot := ⟨0, "a"⟩
def second : Slot := ⟨0, "b"⟩
def third : Slot := ⟨0, "c"⟩

def oneArray : Store := Store.empty.newArray.2

-- A slot takes over what another holds, and is written to.
def pairLinked : List SlotCommand :=
  [write second (.single (.int 1)), link first [second], write first (.single (.int 5))]

theorem aliases_agree_pairLinked :
    oneArray.aliases = [] ∧
    (∀ front rest, pairLinked = front ++ rest → (performAll oneArray front).AliasesAgree) ∧
    (performAll oneArray pairLinked).Linked first second ∧
    (performAll oneArray pairLinked).content second = (Entry.single (.int 5)).toSet := by
  have hnone : oneArray.aliases = [] := rfl
  have hread : (performAll oneArray pairLinked).read second.path = .single (.int 5) := by
    decide +kernel
  -- Only the two slots are linked, and not before the second operation.
  have hunlinked : ∀ p q, ¬(performAll oneArray [write second (.single (.int 1))]).Linked p q := by
    intro p q hpq
    cases hpq
  have hlinked : ∀ {p q}, (performAll oneArray (pairLinked.take 2)).Linked p q →
      p = first ∧ q = second ∨ p = second ∧ q = first := by
    intro p q hpq
    rcases Store.linked_addAliases.mp hpq with hpq | ⟨hp, hq⟩ | ⟨hq, hp⟩
    · exact absurd hpq (hunlinked p q)
    · exact .inl ⟨hp, List.mem_singleton.mp hq⟩
    · exact .inr ⟨List.mem_singleton.mp hp, hq⟩
  refine ⟨hnone, (aliases_agree_iff hnone _).mpr ⟨?_, ?_, ?_, trivial⟩, by decide +kernel, ?_⟩
  · intro p q hp
    cases hp
  · rintro - p (hp | hp)
    · rw [List.mem_singleton.mp hp]
      exact .inr (by simp [Store.contents])
    · exact absurd hp (hunlinked first p)
  · intro p q hp hpq
    rcases hlinked hp with ⟨-, rfl⟩ | ⟨hfirst, -⟩
    · rcases hlinked hpq with ⟨hsecond, -⟩ | ⟨-, rfl⟩
      · exact absurd hsecond (by decide)
      · exact .inl rfl
    · exact absurd hfirst (by decide)
  · rw [Store.content, hread]

theorem not_aliasesAgree {store : Store} {p q : Slot} (hlinked : store.Linked p q) {v : Value}
    (hp : v ∈ (store.read p.path).values) (hq : v ∉ (store.read q.path).values) :
    ¬store.AliasesAgree := by
  intro hagree
  have hset := hagree p.path q.path hlinked
  exact hq (hset ▸ hp : v ∈ (store.read q.path).toSet)

-- The second slot takes over what the third holds, and the first is left behind. A write to the
-- first gets to the second, and not on to the third.
theorem aliases_disagree_linked_twice :
    ¬(performAll oneArray [link first [second], write third (.single (.int 5)),
      link second [third]]).AliasesAgree ∧
    ¬(performAll oneArray [link first [second], link third [second],
      write first (.single (.int 7))]).AliasesAgree := by
  constructor
  · apply not_aliasesAgree (p := second) (q := first) (v := .int 5) <;> decide +kernel
  · apply not_aliasesAgree (p := second) (q := third) (v := .int 7) <;> decide +kernel

end SlotCommand

end AbsEval
