import AbsEval.Proofs.Literal.Writes

namespace AbsEval

-- What a run leaves at a name is kept track of: the last item that goes there is written there, and
-- an item that takes the place of what is there has one from it on that goes there.
structure Tracks (options : Options) (keys : List (Option Entry)) (run : List Placement)
    (name : String) : Prop where
  written : ∀ i, GoesTo run i name → (∀ j, i < j → ¬GoesTo run j name) →
    WrittenAt options keys i name
  kept : ∀ i, ReplacedAt options keys i name → ∃ j, i ≤ j ∧ GoesTo run j name

-- The keys are plain, indexes do not run out, and an unknown key goes to a name only where it is
-- there already.
structure Plain (options : Options) (keys : List (Option Entry)) (run : List Placement)
    (name : String) : Prop where
  plain : ∀ key, some key ∈ keys → PlainKey options key
  indexes : ∀ (i : Nat) (placement : Placement), keys[i]? = some none → run[i]? = some placement →
    placement.key.isSome
  present : ∀ i, GoesTo run i name → OpenAt options keys i → ∃ j < i, NamesAt options keys j name

section Plain

variable {options : Options} {items : List (Option Entry × Entry)} {run : List Placement}
  {name : String} {i : Nat} {placement : Placement}

-- An item that takes the place of what is there is not left out.
theorem Plain.exists_key (hp : Places options (some 0) items run)
    (h : Plain options (items.map Prod.fst) run name) (hi : run[i]? = some placement)
    (hreplaced : ReplacedAt options (items.map Prod.fst) i name) : ∃ k, placement.key = some k := by
  obtain ⟨⟨item, entry⟩, -, hkey, hplaced⟩ := hp.exists_placed hi
  cases item with
  | none => exact Option.isSome_iff_exists.mp (h.indexes i placement hkey hi)
  | some key =>
    obtain ⟨v, hv, c, hc, hk⟩ := hplaced.key key rfl
    have hclosed := ((hreplaced name).mpr rfl).not_openAt
    obtain ⟨k, x⟩ := placement
    cases k with
    | some k => exact ⟨k, rfl⟩
    | none =>
      have hillegal : Candidate.ofValue options c = .illegal := by
        generalize Candidate.ofValue options c = candidate at hk
        cases hk
        rfl
      have hplain := h.plain key (List.mem_of_getElem? hkey)
      rcases hplain.settled v hv c hc hillegal with ⟨w, hw, hopen⟩ | hnames
      · exact absurd ⟨key, .inl hkey, w, hw, hopen⟩ hclosed
      · refine absurd ⟨name, fun other => ?_⟩ hnames
        rw [← hreplaced other, namesAt_key hkey, and_iff_right hclosed]

theorem Plain.tracks (hp : Places options (some 0) items run)
    (h : Plain options (items.map Prod.fst) run name) :
    Tracks options (items.map Prod.fst) run name := by
  constructor
  · rintro i ⟨placement, hi, hname⟩ -
    obtain ⟨k, hk, rfl⟩ := Option.map_eq_some_iff.mp hname
    rcases openAt_or_namesAt hp h.plain hi hk with hopen | hnames
    · exact .inr ⟨hopen, h.present i ⟨placement, hi, hname⟩ hopen⟩
    · exact .inl hnames
  · intro i hreplaced
    have hnames := (hreplaced name).mpr rfl
    have hlt : i < run.length := by simpa [hp.length_eq] using hnames.lt_length
    have hi := List.getElem?_eq_getElem hlt
    obtain ⟨k, hk⟩ := h.exists_key hp hi hreplaced
    refine ⟨i, Nat.le_refl i, _, hi, ?_⟩
    rcases openAt_or_namesAt hp h.plain hi hk with hopen | hgoes
    · exact absurd hopen hnames.not_openAt
    · rw [Placement.name?, hk, Option.map_some, (hreplaced _).mp hgoes]

end Plain

section Marks

variable {options : Options} {items : List (Option Entry × Entry)} {run : List Placement}
  {name : String} {i j : Nat}

-- The same keys and placements, with a value at one item that no other item has.

def markItems (items : List (Option Entry × Entry)) (i : Nat) : List (Option Entry × Entry) :=
  items.mapIdx fun j item => (item.1, .single (.bool (j == i)))

def markRun (run : List Placement) (i : Nat) : List Placement :=
  run.mapIdx fun j placement => ⟨placement.key, .bool (j == i)⟩

theorem map_fst_markItems (items : List (Option Entry × Entry)) (i : Nat) :
    (markItems items i).map Prod.fst = items.map Prod.fst := by
  refine List.ext_getElem? fun j => ?_
  cases h : items[j]? <;> simp [markItems, h]

theorem map_key_markRun (run : List Placement) (i : Nat) :
    (markRun run i).map Placement.key = run.map Placement.key := by
  refine List.ext_getElem? fun j => ?_
  cases h : run[j]? <;> simp [markRun, h]

theorem goesTo_markRun : GoesTo (markRun run i) j name ↔ GoesTo run j name := by
  simp [GoesTo, markRun, Placement.name?]

theorem values_of_markItems {item : Option Entry × Entry}
    (hj : (markItems items i)[j]? = some item) : item.2.values = [.bool (j == i)] := by
  simp only [markItems, List.getElem?_mapIdx, Option.map_eq_some_iff] at hj
  obtain ⟨old, -, rfl⟩ := hj
  rfl

theorem contents_markRun {placement : Placement} (hi : run[i]? = some placement)
    (hname : placement.name? = some name) (hlast : ∀ j, i < j → ¬GoesTo run j name) :
    contents (markRun run i) name = .bool true := by
  have hmark : (markRun run i)[i]? = some ⟨placement.key, .bool true⟩ := by simp [markRun, hi]
  exact contents_of_last hmark hname fun j hj => mt goesTo_markRun.mp (hlast j hj)

end Marks

namespace Eval

variable {options : Options} {state last : State} {items : List (Option Entry × Entry)}
  {run : List Placement} {array v : Value} {name : String}

-- What is found in the array of a literal: what an item wrote, or null, if it was not replaced.
theorem mem_read_arrayLiteral (h : (arrayLiteral items).run options state = (.ok array, last))
    (ha : state.store.Unaliased state.store.nextArray) :
    v ∈ (last.store.read ((Path.ofValue array).member .index (.single name))).values ↔
      (v = .null ∧ ∀ i, ¬ReplacedAt options (items.map Prod.fst) i name) ∨
      ∃ i item, items[i]? = some item ∧ v ∈ item.2.values ∧
        WrittenAt options (items.map Prod.fst) i name ∧
        ∀ j, i < j → ¬ReplacedAt options (items.map Prod.fst) j name := by
  obtain ⟨-, rfl, hstore⟩ := run_arrayLiteral h
  have hmembers : last.store.members.get? (.array state.store.nextArray) =
      some (membersAfter options items items.length) := by
    rw [hstore, membersAfter, List.take_of_length_le (by simp)]
    exact Store.get?_writeItems (Map.get?_set_self _ _ _) ha
  rw [Store.mem_read_member rfl, Store.valuesAt, hmembers]
  refine (mem_valuesAt_membersAfter (Nat.le_refl _)).trans ?_
  constructor
  · rintro (⟨hnull, hkept⟩ | ⟨i, -, ⟨item, hitem, hv⟩, hw, hkept⟩)
    · exact .inl ⟨hnull, fun j hr => hkept j hr.lt_length hr⟩
    · exact .inr ⟨i, item, hitem, hv, hw, fun j hj hr => hkept j hr.lt_length hj hr⟩
  · rintro (⟨hnull, hkept⟩ | ⟨i, item, hitem, hv, hw, hkept⟩)
    · exact .inl ⟨hnull, fun j _ => hkept j⟩
    · exact .inr ⟨i, (List.getElem?_eq_some_iff.mp hitem).1, ⟨item, hitem, hv⟩, hw,
        fun j _ => hkept j⟩

theorem contents_mem_of_tracks (h : (arrayLiteral items).run options state = (.ok array, last))
    (ha : state.store.Unaliased state.store.nextArray) (hp : Places options (some 0) items run)
    (htracks : Tracks options (items.map Prod.fst) run name) :
    contents run name ∈
      (last.store.read ((Path.ofValue array).member .index (.single name))).values := by
  rw [mem_read_arrayLiteral h ha]
  rcases contents_cases run name with ⟨hnone, hnull⟩ | ⟨i, placement, hi, hname, hbehind, hvalue⟩
  · refine .inl ⟨hnull, fun j hr => ?_⟩
    obtain ⟨k, -, hgoes⟩ := htracks.kept j hr
    exact hnone k hgoes
  · obtain ⟨item, hitem, -, hplaced⟩ := hp.exists_placed hi
    refine .inr ⟨i, item, hitem, hvalue ▸ hplaced.value,
      htracks.written i ⟨placement, hi, hname⟩ hbehind, fun j hj hr => ?_⟩
    obtain ⟨k, hk, hgoes⟩ := htracks.kept j hr
    exact hbehind k (Nat.lt_of_lt_of_le hj hk) hgoes

-- With a mark at the last item that goes to a name, it is found there only if it is kept track of.
theorem exists_tracks_of_mem (options : Options) (items : List (Option Entry × Entry))
    (run : List Placement) (array : Value) (name : String)
    (ha : state.store.Unaliased state.store.nextArray) :
    ∃ i, ∀ last, (arrayLiteral (markItems items i)).run options state = (.ok array, last) →
      contents (markRun run i) name ∈
        (last.store.read ((Path.ofValue array).member .index (.single name))).values →
      Tracks options (items.map Prod.fst) run name := by
  rcases contents_cases run name with ⟨hnone, -⟩ | ⟨i, placement, hi, hname, hbehind, -⟩
  · refine ⟨0, fun last h hmem => ?_⟩
    rw [contents_of_none fun j => mt goesTo_markRun.mp (hnone j), mem_read_arrayLiteral h ha,
      map_fst_markItems] at hmem
    rcases hmem with ⟨-, hkept⟩ | ⟨j, item, hitem, hv, -⟩
    · exact ⟨fun j hgoes => absurd hgoes (hnone j), fun j hr => absurd hr (hkept j)⟩
    · rw [values_of_markItems hitem] at hv
      cases hv with
      | tail _ hv => cases hv
  · refine ⟨i, fun last h hmem => ?_⟩
    rw [contents_markRun hi hname hbehind, mem_read_arrayLiteral h ha, map_fst_markItems] at hmem
    rcases hmem with ⟨hnull, -⟩ | ⟨j, item, hitem, hv, hw, hkept⟩
    · cases hnull
    · obtain rfl : j = i := by simpa [values_of_markItems hitem] using hv
      constructor
      · intro k hgoes hlast
        rcases Nat.lt_trichotomy j k with hlt | rfl | hlt
        · exact absurd hgoes (hbehind k hlt)
        · exact hw
        · exact absurd ⟨placement, hi, hname⟩ (hlast j hlt)
      · intro k hr
        exact ⟨j, Nat.le_of_not_lt fun hlt => hkept k hlt hr, placement, hi, hname⟩

-- What a run of an array literal leaves at a name is found there if it is kept track of. If it is
-- not, there are entries with which it is missed. Keys that are plain keep track of a name wherever
-- an unknown key goes there only after an item that has the name.
theorem contents_mem_read (h : (arrayLiteral items).run options state = (.ok array, last))
    (ha : state.store.Unaliased state.store.nextArray) (hp : Places options (some 0) items run)
    (name : String) :
    (Tracks options (items.map Prod.fst) run name →
      contents run name ∈
        (last.store.read ((Path.ofValue array).member .index (.single name))).values) ∧
    (¬Tracks options (items.map Prod.fst) run name → ∃ items' run' last',
      items'.map Prod.fst = items.map Prod.fst ∧
      run'.map Placement.key = run.map Placement.key ∧ Places options (some 0) items' run' ∧
      (arrayLiteral items').run options state = (.ok array, last') ∧
      contents run' name ∉
        (last'.store.read ((Path.ofValue array).member .index (.single name))).values) ∧
    (Plain options (items.map Prod.fst) run name →
      Tracks options (items.map Prod.fst) run name) := by
  refine ⟨contents_mem_of_tracks h ha hp, fun hmissed => ?_, Plain.tracks hp⟩
  obtain ⟨i, htracks⟩ := exists_tracks_of_mem options items run array name ha
  obtain ⟨last', hrun⟩ := exists_run_arrayLiteral h (map_fst_markItems items i)
  exact ⟨_, _, last', map_fst_markItems items i, map_key_markRun run i, hp.mapIdx _, hrun,
    fun hmem => hmissed (htracks last' hrun hmem)⟩

-- A known key, one that may be two names or illegal, one that is left out, and an unknown text.
def unknownLast : List (Option Entry × Entry) :=
  [(some (.single (.str "a")), .single (.int 1)),
    (some (.ofNonempty [.str "b", .str "c", .array 7] (by simp)), .single (.int 2)),
    (none, .single (.int 3)), (some (.single (.any .string)), .single (.int 4))]

-- The second item is left out, the last one goes to this text.
def goingTo (text : String) : List Placement :=
  [⟨some (.str "a"), .int 1⟩, ⟨none, .int 2⟩, ⟨some (.int 0), .int 3⟩, ⟨some (.str text), .int 4⟩]

theorem places_unknownLast {text : String} (h : canonicalInt? text = none) :
    Places {} (some 0) unknownLast (goingTo text) := by
  refine .keyed (v := .str "a") (c := .str "a") (by decide) rfl (.key (.str "a")) (by decide) ?_
  refine .keyed (v := .array 7) (c := .array 7) (by decide) rfl .illegal (by decide) ?_
  refine .unkeyed (by decide) ?_
  refine .keyed (v := .any .string) (c := .str text) (by decide) ⟨rfl, List.Subset.refl _⟩ ?_
    (by decide) (.nil _)
  rw [Candidate.ofValue, h]
  exact .key _

theorem plainKey_unknownLast (key : Entry) (h : some key ∈ unknownLast.map Prod.fst) :
    PlainKey {} key := by
  have hvisible : ∀ v ∈ key.values, Visible {} v key := fun v hv =>
    ⟨hv, fun n _ => IndexClass.not_hidden rfl⟩
  simp only [unknownLast, List.map_cons, List.map_nil, List.mem_cons, Option.some.injEq,
    reduceCtorEq, List.not_mem_nil, or_false, false_or] at h
  rcases h with rfl | rfl | rfl
  · refine ⟨by decide, hvisible, fun v hv c hc hillegal => ?_⟩
    obtain rfl := List.mem_singleton.mp hv
    obtain rfl : c = .str "a" := hc
    exact absurd hillegal (by decide)
  · refine ⟨by decide, hvisible, fun _ _ _ _ _ => .inr ?_⟩
    rintro ⟨name, h⟩
    have hb : "b" = name := (h "b").mp ⟨.str "b", ⟨.str "b", by decide, rfl, by decide⟩, rfl⟩
    have hc : "c" = name := (h "c").mp ⟨.str "c", ⟨.str "c", by decide, rfl, by decide⟩, rfl⟩
    exact absurd (hb.trans hc.symm) (by decide)
  · exact ⟨by decide, hvisible, fun _ _ _ _ _ =>
      .inl ⟨_, List.mem_singleton_self _, Value.isOpenKey_iff.mpr rfl⟩⟩

theorem selector_unknownLast {i : Nat} {selector : Selector}
    (h : [.names ["a"], .names ["b", "c"], .names ["0"], .any][i]? = some selector) :
    (selector = .any ↔ OpenAt {} (unknownLast.map Prod.fst) i) ∧
      ∀ name, name ∈ selector.keys ↔ NamesAt {} (unknownLast.map Prod.fst) i name := by
  have hselectors : itemSelectors {} .initial (unknownLast.map Prod.fst) =
      [.names ["a"], .names ["b", "c"], .names ["0"], .any] := by
    decide +kernel
  obtain ⟨hopen, -, hnames⟩ := selector_spec (hselectors ▸ h)
  exact ⟨hopen, hnames⟩

theorem plain_unknownLast (name : String) :
    Plain {} (unknownLast.map Prod.fst) (goingTo "a") name := by
  refine ⟨plainKey_unknownLast, fun i placement hi hi' => ?_, ?_⟩
  · rcases i with _ | _ | _ | _ | i <;> cases hi
    cases hi'
    rfl
  · rintro i ⟨placement, hi, hname⟩ hopen
    rcases i with _ | _ | _ | _ | i
    · cases (selector_unknownLast rfl).1.mpr hopen
    · cases hi
      cases hname
    · cases (selector_unknownLast rfl).1.mpr hopen
    · cases hi
      cases hname
      exact ⟨0, by decide, ((selector_unknownLast rfl).2 "a").mp (by decide)⟩
    · cases hi

theorem not_tracks_unknownLast : ¬Tracks {} (unknownLast.map Prod.fst) (goingTo "z") "z" := by
  have hnames : ∀ i, ¬NamesAt {} (unknownLast.map Prod.fst) i "z" := by
    intro i h
    rcases i with _ | _ | _ | _ | i
    · exact absurd (((selector_unknownLast rfl).2 "z").mpr h) (by decide)
    · exact absurd (((selector_unknownLast rfl).2 "z").mpr h) (by decide)
    · exact absurd (((selector_unknownLast rfl).2 "z").mpr h) (by decide)
    · exact absurd (((selector_unknownLast rfl).2 "z").mpr h) (by decide)
    · have hlt : i + 4 < 4 := h.lt_length
      omega
  intro h
  have hlast : ∀ j, 3 < j → ¬GoesTo (goingTo "z") j "z" := by
    rintro j hj ⟨placement, hi, -⟩
    have hlt : j < 4 := (List.getElem?_eq_some_iff.mp hi).1
    omega
  rcases h.written 3 ⟨_, rfl, rfl⟩ hlast with h | ⟨-, j, -, h⟩
  · exact hnames 3 h
  · exact hnames j h

-- What the unknown text adds to "a" is found there, what it adds to "z" may be missed.
theorem contents_goingTo_mem_read :
    Store.empty.Unaliased 0 ∧ Places {} (some 0) unknownLast (goingTo "a") ∧
      (∀ name, Plain {} (unknownLast.map Prod.fst) (goingTo "a") name) ∧
      contents (goingTo "a") "a" = .int 4 ∧ contents (goingTo "a") "b" = .null ∧
      contents (goingTo "a") "0" = .int 3 ∧
      ∃ array last, (arrayLiteral unknownLast).run {} .initial = (.ok array, last) ∧
        (∀ name, contents (goingTo "a") name ∈
          (last.store.read ((Path.ofValue array).member .index (.single name))).values) ∧
        (last.store.read ((Path.ofValue array).member .index (.single "a"))).values =
          [.int 1, .int 4] ∧
        ∃ items run last', items.map Prod.fst = unknownLast.map Prod.fst ∧
          run.map Placement.key = (goingTo "z").map Placement.key ∧
          Places {} (some 0) items run ∧
          (arrayLiteral items).run {} .initial = (.ok array, last') ∧
          contents run "z" ∉
            (last'.store.read ((Path.ofValue array).member .index (.single "z"))).values := by
  have halias : Store.empty.Unaliased 0 := by simp [Store.Unaliased, Store.empty]
  have hplaces : Places {} (some 0) unknownLast (goingTo "a") := places_unknownLast (by decide)
  have hstray : Places {} (some 0) unknownLast (goingTo "z") := places_unknownLast (by decide)
  obtain ⟨array, last, hrun, hread⟩ : ∃ array last,
      (arrayLiteral unknownLast).run {} .initial = (.ok array, last) ∧
      (last.store.read ((Path.ofValue array).member .index (.single "a"))).values =
        [.int 1, .int 4] :=
    ⟨_, _, rfl, by decide +kernel⟩
  refine ⟨halias, hplaces, plain_unknownLast, by decide +kernel, by decide +kernel,
    by decide +kernel, array, last, hrun, fun name => ?_, hread, ?_⟩
  · obtain ⟨hfound, -, htracks⟩ := contents_mem_read hrun halias hplaces name
    exact hfound (htracks (plain_unknownLast name))
  · obtain ⟨-, hmissed, -⟩ := contents_mem_read hrun halias hstray "z"
    exact hmissed not_tracks_unknownLast

-- Some run leaves at a name what is not found there.
def Misses (options : Options) (items : List (Option Entry × Entry)) (name : String) : Prop :=
  ∃ run array last, Places options (some 0) items run ∧
    (arrayLiteral items).run options .initial = (.ok array, last) ∧
    contents run name ∉
      (last.store.read ((Path.ofValue array).member .index (.single name))).values

-- What is not tracked is missed: an unknown key of an empty array, an item that is left out beside
-- its only name, a resource among compound keys, an index behind the greatest one beside another,
-- and the index behind an integer that is taken for the text of its digits.
theorem misses_untracked :
    Misses {} [(some (.single (.any .integer)), .single (.int 5))] "3" ∧
      Misses {} [(some (.ofNonempty [.str "k", .array 7] (by simp)), .single (.int 1))] "k" ∧
      Misses {} [(some (.single (.any .compound)), .single (.int 5))] "3" ∧
      Misses {} [(some (.ofNonempty [.int Int32.maxValue, .int 5] (by simp)), .single (.int 1)),
        (none, .single (.int 2))] "6" ∧
      Misses { canonicalIntegerKeys := false }
        [(some (.ofNonempty [.str "5", .int 5] (by simp)), .single (.int 1)),
          (none, .single (.int 2))] "6" := by
  refine ⟨⟨[⟨some (.int 3), .int 5⟩], _, _, ?_, rfl, by decide +kernel⟩,
    ⟨[⟨none, .int 1⟩], _, _, ?_, rfl, by decide +kernel⟩,
    ⟨[⟨some (.int 3), .int 5⟩], _, _, ?_, rfl, by decide +kernel⟩,
    ⟨[⟨some (.int Int32.maxValue), .int 1⟩, ⟨none, .int 2⟩], _, _, ?_, rfl, by decide +kernel⟩,
    ⟨[⟨some (.int 5), .int 1⟩, ⟨some (.int 6), .int 2⟩], _, _, ?_, rfl, by decide +kernel⟩⟩
  · exact .keyed (v := .any .integer) (c := .int 3) (by decide) ⟨rfl, by decide⟩ (.key (.int 3))
      (by decide) (.nil _)
  · exact .keyed (v := .array 7) (c := .array 7) (by decide) rfl .illegal (by decide) (.nil _)
  · exact .keyed (v := .any .compound) (c := .resource 3) (by decide) ⟨rfl, by decide⟩
      (.key (.int 3)) (by decide) (.nil _)
  · refine .keyed (v := .int Int32.maxValue) (c := .int Int32.maxValue) (by decide) rfl
      (.key (.int Int32.maxValue)) (by decide) ?_
    have hnext : nextIndex (some 0) (some (.int Int32.maxValue)) = none := by decide
    rw [hnext]
    exact .unkeyed (by decide) (.nil _)
  · refine .keyed (v := .int 5) (c := .int 5) (by decide) rfl (.key (.int 5)) (by decide) ?_
    have hnext : nextIndex (some 0) (some (.int 5)) = some 6 := by decide
    rw [hnext]
    exact .unkeyed (by decide) (.nil _)

end Eval

end AbsEval
