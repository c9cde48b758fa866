import AbsEval.Proofs.Evaluation.Storage
import AbsEval.Proofs.Store.Bookkeeping

namespace AbsEval

-- Whatever evaluations find and make, and whether they succeed, the store stays well formed.
theorem Eval.wellFormed_runAll {given : Path → Prop} {options : Options}
    {xs : List (Eval Value)} {state : State} (hbuilds : ∀ x ∈ xs, x.Builds given)
    (hs : state.store.WellFormed) : (runAll options xs state).store.WellFormed := by
  induction xs generalizing state with
  | nil => exact hs
  | cons x xs ih =>
    obtain ⟨hx, hxs⟩ := List.forall_mem_cons.mp hbuilds
    have hnext := hs.grows (hx options state)
    rcases hrun : x.run options state with ⟨fault | a, next⟩
    · rw [hrun] at hnext
      simpa only [runAll, hrun] using hnext
    · rw [hrun] at hnext
      simpa only [runAll, hrun] using ih hxs hnext

theorem Call.wellFormed_after {options : Options} {state : State} (hs : state.store.WellFormed)
    (call : Call) : (call.after options state).store.WellFormed := by
  have hbuilds : ∀ x ∈ call.parts, x.Builds fun _ => True :=
    builds_parts (fun _ _ _ => trivial) (fun _ _ _ => trivial) fun _ _ => trivial
  rw [store_after]
  exact Eval.wellFormed_runAll hbuilds hs

-- The states after any operations on any arguments, also on containers that were never made.
inductive Arrives : State → Prop where
  | initial : Arrives .initial
  | newArray {state : State} : Arrives state →
      Arrives { state with store := state.store.newArray.2 }
  | newObject {state : State} (className : String) : Arrives state →
      Arrives { state with store := (state.store.newObject className).2 }
  | newResource {state : State} : Arrives state →
      Arrives { state with store := state.store.newResource.2 }
  | write {state : State} (path : Path) (entry : Entry) : Arrives state →
      Arrives { state with store := state.store.write path entry }
  | addAliases {state : State} (path : Path) (others : List Path) : Arrives state →
      Arrives { state with store := state.store.addAliases path others }
  | call {state : State} (options : Options) (call : Call) : Arrives state →
      Arrives (call.after options state)

namespace Arrives

theorem wellFormed {state : State} (h : Arrives state) : state.store.WellFormed := by
  induction h with
  | initial => exact Store.wellFormed_empty
  | newArray _ ih => exact ih.allocate .index
  | newObject className _ ih => exact ih.allocate .field
  | newResource _ ih => exact ⟨ih.agrees, ih.aliases_distinct, ih.aliases_symmetric⟩
  | write path entry _ ih => exact ih.write path entry
  | addAliases path others _ ih => exact ih.addAliases path others
  | call options call _ ih => exact call.wellFormed_after ih

-- In every container the keys in order are the keys that an entry is found at, each once, so that
-- going through them finds all that is stored. Every entry holds some values, no two of them the
-- same, and every alias is recorded once in both directions.
theorem bookkeeping_agrees {state : State} (h : Arrives state) :
    (∀ c members, state.store.members.get? c = some members →
      members.keys.Nodup ∧
      (∀ key, key ∈ members.keys ↔ (members.values.get? key).isSome) ∧
      (∀ v, v ∈ members.read .any ↔
        v = .null ∨ ∃ key entry, members.values.get? key = some entry ∧ v ∈ entry.values) ∧
      ∀ key entry, members.values.get? key = some entry →
        entry.values ≠ [] ∧ entry.values.Pairwise fun v w => ¬v.same w) ∧
    state.store.aliases.Nodup ∧
    ∀ p q, (p, q) ∈ state.store.aliases → (q, p) ∈ state.store.aliases := by
  have hs := h.wellFormed
  refine ⟨fun c members hc => ?_, hs.aliases_distinct, fun p q => hs.aliases_symmetric (p, q)⟩
  have hagrees := hs.agrees c members hc
  refine ⟨hagrees.distinct, fun key => hagrees.mem_keys_iff,
    fun v => Members.mem_read_any_iff hagrees, fun key entry _ => ⟨entry.nonempty, ?_⟩⟩
  exact entry.distinct.imp fun hne hsame => hne (Value.eq_of_same hsame)

-- Two keys of an array that was never made, or of another.
def strayPath : Path :=
  (Path.ofEntry (.union (.single (.array 0)) (.single (.array 5)))).member .index
    (.names ["k", "m"])

def otherPath : Path := (Path.ofValue (.array 5)).member .index (.single "m")

-- Weak writes, an alias of itself, and an array made in the place of one that is in use.
def stray : State :=
  (Call.arrayLiteral [(none, .single (.int 1))]).after {}
    ⟨(Store.empty.write strayPath (.single .null)).addAliases otherPath [strayPath, otherPath], []⟩

theorem bookkeeping_agrees_stray :
    Arrives stray ∧
    (∃ members, stray.store.members.get? (.array 5) = some members ∧
      members.keys = ["k", "m"] ∧ members.values.keys = ["k", "m"] ∧
      ∀ key, key ∈ members.keys ↔ (members.values.get? key).isSome) ∧
    stray.store.aliases.length = 3 ∧ stray.store.aliases.Nodup ∧
    (strayPath, otherPath) ∈ stray.store.aliases := by
  have harrives : Arrives stray :=
    (Arrives.initial.write strayPath (.single .null)).addAliases otherPath [strayPath, otherPath]
      |>.call {} _
  obtain ⟨hmembers, hdistinct, hsymmetric⟩ := bookkeeping_agrees harrives
  have hrecorded : (otherPath, strayPath) ∈ stray.store.aliases := by decide +kernel
  have hpresent : (stray.store.members.get? (.array 5)).map
      (fun members => (members.keys, members.values.keys)) = some (["k", "m"], ["k", "m"]) := by
    decide +kernel
  obtain ⟨members, hget, hcopies⟩ := Option.map_eq_some_iff.mp hpresent
  obtain ⟨hkeys, hvalues⟩ := Prod.mk.inj hcopies
  exact ⟨harrives, ⟨members, hget, hkeys, hvalues, (hmembers _ _ hget).2.1⟩, by decide +kernel,
    hdistinct, hsymmetric _ _ hrecorded⟩

end Arrives

end AbsEval
