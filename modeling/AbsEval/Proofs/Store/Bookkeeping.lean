import AbsEval.Proofs.Store.Growth
import Mathlib.Data.List.Nodup

namespace AbsEval

-- Going through the keys finds all that is stored.
theorem Members.mem_read_any_iff {members : Members} {v : Value} (h : members.Agrees) :
    v ∈ members.read .any ↔
      v = .null ∨ ∃ key entry, members.get? key = some entry ∧ v ∈ entry.values := by
  rw [read, List.mem_append, List.mem_singleton, or_comm, List.mem_flatMap]
  refine or_congr_right ⟨?_, ?_⟩
  · rintro ⟨row, hrow, hv⟩
    exact ⟨row.1, row.2, Table.get?_of_mem_rows hrow, hv⟩
  · rintro ⟨key, entry, hget, hv⟩
    exact ⟨(key, entry), h.mem_rows_of_get? hget, hv⟩

section Record

variable {α : Type} [BEq α] [LawfulBEq α] {xs known : List α}

-- Adding what is not there yet.
theorem mem_foldl_record {x : α} :
    x ∈ xs.foldl (fun known x => if x ∈ known then known else known ++ [x]) known ↔
      x ∈ known ∨ x ∈ xs := by
  induction xs generalizing known with
  | nil => simp
  | cons first xs ih =>
    rw [List.foldl_cons, ih, List.mem_cons]
    split
    · next hfirst =>
      have hx : x = first → x ∈ known := fun h => h ▸ hfirst
      tauto
    · rw [List.mem_append, List.mem_singleton, or_assoc]

theorem nodup_foldl_record (h : known.Nodup) :
    (xs.foldl (fun known x => if x ∈ known then known else known ++ [x]) known).Nodup := by
  refine List.foldlRecOn _ _ h fun known hknown x _ => ?_
  split
  · exact hknown
  · next hx =>
    rw [← List.concat_eq_append]
    exact hknown.concat hx

end Record

namespace Store

variable {given : Path → Prop} {store last : Store} {path : Path} {others : List Path}
  {entry : Entry} {target : Value} {access : Access} {c : Container} {members : Members}

theorem aliases_assign (store : Store) (path : Path) (entry : Entry) :
    (store.assign path entry).aliases = store.aliases := by
  obtain ⟨members, h⟩ := store.assign_eq path entry
  rw [h]

-- The first part of aliasing writes at most once.
theorem elim_assign {P : Store → Prop} (found : Option Entry) (h : P store)
    (hassign : ∀ entry, P (store.assign path entry)) :
    P (found.elim store (store.assign path)) := by
  cases found with
  | none => exact h
  | some entry => exact hassign entry

theorem mem_aliases_addAliases {pair : Path × Path} :
    pair ∈ (store.addAliases path others).aliases ↔
      pair ∈ store.aliases ∨ ∃ other ∈ others, pair = (path, other) ∨ pair = (other, path) := by
  unfold addAliases
  dsimp only
  rw [mem_foldl_record, elim_assign (P := fun s => s.aliases = store.aliases) _ rfl
    (store.aliases_assign path)]
  simp

-- What a store keeps twice agrees: the keys of every container, and each alias with its reverse.
structure WellFormed (store : Store) : Prop where
  agrees : store.Agrees
  aliases_distinct : store.aliases.Nodup
  aliases_symmetric : ∀ pair ∈ store.aliases, pair.swap ∈ store.aliases

theorem wellFormed_empty : Store.empty.WellFormed where
  agrees c members hc := by cases hc
  aliases_distinct := List.nodup_nil
  aliases_symmetric pair hpair := by cases hpair

namespace WellFormed

-- Neither the identities that are given out next nor the other containers matter.
theorem set (h : store.WellFormed) (hm : members.Agrees)
    (hmembers : last.members = store.members.set c members)
    (haliases : last.aliases = store.aliases) : last.WellFormed :=
  ⟨h.agrees.set hm hmembers, haliases ▸ h.aliases_distinct, haliases ▸ h.aliases_symmetric⟩

theorem allocate (h : store.WellFormed) (access : Access) : (store.allocate access).WellFormed :=
  h.set Table.agrees_empty (store.allocate_eq access).1 (store.allocate_eq access).2

theorem assign (h : store.WellFormed) (path : Path) (entry : Entry) :
    (store.assign path entry).WellFormed := by
  have haliases := store.aliases_assign path entry
  exact ⟨h.agrees.assign path entry, haliases ▸ h.aliases_distinct,
    haliases ▸ h.aliases_symmetric⟩

theorem write (h : store.WellFormed) (path : Path) (entry : Entry) :
    (store.write path entry).WellFormed :=
  List.foldlRecOn _ _ (h.assign path entry) fun _ hs other _ => hs.assign other entry

theorem addAliases (h : store.WellFormed) (path : Path) (others : List Path) :
    (store.addAliases path others).WellFormed := by
  have hcopied := elim_assign
    (Entry.ofList? (others.flatMap fun other => (store.read other).values)) h (h.assign path)
  refine ⟨hcopied.agrees, nodup_foldl_record hcopied.aliases_distinct, ?_⟩
  intro pair hpair
  rw [mem_aliases_addAliases] at hpair ⊢
  rcases hpair with hpair | ⟨other, hother, rfl | rfl⟩
  · exact .inl (h.aliases_symmetric pair hpair)
  · exact .inr ⟨other, hother, .inr rfl⟩
  · exact .inr ⟨other, hother, .inl rfl⟩

theorem fills (hs : store.WellFormed) (h : Fills given target access store last) :
    last.WellFormed := by
  induction h with
  | done => exact hs
  | write _ _ ih => exact ih (hs.write _ _)

theorem grows (hs : store.WellFormed) (h : Grows given store last) : last.WellFormed := by
  cases h with
  | same => exact hs
  | make _ hfills => exact (hs.allocate _).fills hfills

end WellFormed

end Store

end AbsEval
