import AbsEval.Proofs.Evaluation.Pairwise

namespace AbsEval

namespace Texts

variable {ls rs : List (Option String)} {e : Entry}

-- The texts of two lists are taken apart into known ones and a mark for the others, and each part
-- is put together on its own. This loses and adds nothing: the results are those of the pairs.
theorem mem_toValues_append_ofList (hl : ls ≠ []) (hr : rs ≠ []) {v : Value} :
    v ∈ ((ofList ls).append (ofList rs)).toValues ↔
      ∃ l ∈ ls, ∃ r ∈ rs, .ofText? (do pure ((← l) ++ (← r))) = v := by
  rw [mem_toValues]
  constructor
  · rintro (⟨text, htext, rfl⟩ | ⟨hunknown, rfl⟩)
    · obtain ⟨a, ha, htext⟩ := List.mem_flatMap.mp htext
      obtain ⟨b, hb, rfl⟩ := List.mem_map.mp htext
      exact ⟨some a, mem_known_ofList.mp ha, some b, mem_known_ofList.mp hb, rfl⟩
    · rcases (Bool.or_eq_true _ _).mp hunknown with h | h
      · obtain ⟨r, hmem⟩ := List.exists_mem_of_ne_nil rs hr
        exact ⟨none, hasUnknown_ofList.mp h, r, hmem, rfl⟩
      · obtain ⟨l, hmem⟩ := List.exists_mem_of_ne_nil ls hl
        exact ⟨l, hmem, none, hasUnknown_ofList.mp h, by cases l <;> rfl⟩
  · rintro ⟨l, hl, r, hr, rfl⟩
    cases l with
    | none =>
      exact .inr ⟨(Bool.or_eq_true _ _).mpr (.inl (hasUnknown_ofList.mpr hl)), rfl⟩
    | some a =>
      cases r with
      | none => exact .inr ⟨(Bool.or_eq_true _ _).mpr (.inr (hasUnknown_ofList.mpr hr)), rfl⟩
      | some b =>
        have htext : a ++ b ∈ ((ofList ls).append (ofList rs)).known :=
          List.mem_flatMap.mpr ⟨a, mem_known_ofList.mpr hl,
            List.mem_map.mpr ⟨b, mem_known_ofList.mpr hr, rfl⟩⟩
        exact .inl ⟨a ++ b, htext, rfl⟩

theorem ofEntry_data (h : ∀ v ∈ e.values, v.isMarker = false) :
    ofEntry e = .ok (ofList (e.values.map Value.text?)) := by
  have htext : ∀ v ∈ e.values, v.toText = .ok v.text? := by
    intro v hv
    rw [Value.toText, Value.whenData, h v hv]
    rfl
  rw [ofEntry, mapM_eq_ok_map htext]
  rfl

theorem isMarker_of_ofEntry {texts : Texts} (h : ofEntry e = .ok texts) {v : Value}
    (hv : v ∈ e.values) : v.isMarker = false := by
  obtain ⟨results, hresults, -⟩ := map_eq_ok h
  obtain ⟨text, -, htext⟩ := exists_of_mapM_eq_ok hresults hv
  by_contra hmarker
  rw [Value.toText, Value.whenData, if_pos (by simpa using hmarker)] at htext
  cases htext

end Texts

theorem Value.isText_of_concat {l r v : Value} (h : l.concat r = .ok v) :
    (∃ text, v = .str text) ∨ v = .any .string := by
  obtain ⟨a, -, h⟩ := bind_eq_ok h
  obtain ⟨b, -, h⟩ := bind_eq_ok h
  obtain rfl := Except.ok.inj h
  cases a with
  | none => exact .inr rfl
  | some a =>
    cases b with
    | none => exact .inr rfl
    | some b => exact .inl ⟨_, rfl⟩

namespace Eval

variable (options : Options) (state : State) {left right : Entry}

theorem isMarker_of_concatEntry {e : Entry}
    (h : ((concatEntry left right).run options state).1 = .ok e) :
    (∀ l ∈ left.values, l.isMarker = false) ∧ ∀ r ∈ right.values, r.isMarker = false := by
  rw [fst_run_concatEntry] at h
  obtain ⟨l, hl, h⟩ := bind_eq_ok h
  obtain ⟨r, hr, -⟩ := bind_eq_ok h
  exact ⟨fun _ => Texts.isMarker_of_ofEntry hl, fun _ => Texts.isMarker_of_ofEntry hr⟩

-- Of data there is always a result, and it holds what the pairs of values give.
theorem exists_concatEntry (hl : ∀ l ∈ left.values, l.isMarker = false)
    (hr : ∀ r ∈ right.values, r.isMarker = false) :
    ∃ e, ((concatEntry left right).run options state).1 = .ok e ∧
      ∀ v, v ∈ e.values ↔ ∃ l ∈ left.values, ∃ r ∈ right.values, l.concat r = .ok v := by
  have hleft : left.values.map Value.text? ≠ [] := by simp [left.nonempty]
  have hright : right.values.map Value.text? ≠ [] := by simp [right.nonempty]
  have hne := Texts.toValues_append_ne_nil (Texts.toValues_ofList_ne_nil hleft)
    (Texts.toValues_ofList_ne_nil hright)
  refine ⟨.ofNonempty _ hne, ?_, fun v => ?_⟩
  · rw [fst_run_concatEntry, Texts.ofEntry_data hl, Texts.ofEntry_data hr]
    exact congrArg Prod.fst (run_collect hne)
  · rw [Entry.mem_ofNonempty, Texts.mem_toValues_append_ofList hleft hright]
    constructor
    · rintro ⟨_, htext, _, htext', rfl⟩
      obtain ⟨l, hmem, rfl⟩ := List.mem_map.mp htext
      obtain ⟨r, hmem', rfl⟩ := List.mem_map.mp htext'
      exact ⟨l, hmem, r, hmem', concat_eq (hl l hmem) (hr r hmem')⟩
    · rintro ⟨l, hmem, r, hmem', hv⟩
      rw [concat_eq (hl l hmem) (hr r hmem')] at hv
      exact ⟨_, List.mem_map_of_mem hmem, _, List.mem_map_of_mem hmem', Except.ok.inj hv⟩

-- Concatenation of entries has a result just if no value is a marker. It is made of texts and of
-- the mark for an unknown one, each once, and these are what the pairs of values give.
theorem concatEntry_exact (left right : Entry) :
    ((∃ e, ((concatEntry left right).run options state).1 = .ok e) ↔
        ∀ v, v ∈ left.values ∨ v ∈ right.values → v.isMarker = false) ∧
      ∀ e, ((concatEntry left right).run options state).1 = .ok e →
        (∀ v, v ∈ e.values ↔ ∃ l ∈ left.values, ∃ r ∈ right.values, l.concat r = .ok v) ∧
          (∀ v ∈ e.values, (∃ text, v = .str text) ∨ v = .any .string) ∧
          e.values ≠ [] ∧ e.values.Nodup := by
  constructor
  · constructor
    · rintro ⟨e, he⟩ v hv
      obtain ⟨hl, hr⟩ := isMarker_of_concatEntry options state he
      exact hv.elim (hl v) (hr v)
    · intro hdata
      obtain ⟨e, he, -⟩ := exists_concatEntry options state (fun l hl => hdata l (.inl hl))
        fun r hr => hdata r (.inr hr)
      exact ⟨e, he⟩
  · intro e he
    obtain ⟨hl, hr⟩ := isMarker_of_concatEntry options state he
    obtain ⟨e', he', hpairs⟩ := exists_concatEntry options state hl hr
    obtain rfl : e' = e := Except.ok.inj (he'.symm.trans he)
    refine ⟨hpairs, fun v hv => ?_, e'.nonempty, e'.distinct⟩
    obtain ⟨l, -, r, -, hconcat⟩ := (hpairs v).mp hv
    exact Value.isText_of_concat hconcat

def beginnings : Entry := ((Entry.single (.str "a")).insert (.str "ab")).insert (.object 0 "A")

def endings : Entry := (Entry.single (.str "bc")).insert (.str "c")

-- Two pairs of texts make the same text, and an object has none.
theorem concatEntry_exact_sameText :
    (∀ v, v ∈ beginnings.values ∨ v ∈ endings.values → v.isMarker = false) ∧
      ∃ e, ((concatEntry beginnings endings).run {} .initial).1 = .ok e ∧
        e.values = [.str "abc", .str "ac", .str "abbc", .any .string] ∧
        ∀ v, v ∈ e.values ↔
          ∃ l ∈ beginnings.values, ∃ r ∈ endings.values, l.concat r = .ok v := by
  have hdata : ∀ v, v ∈ beginnings.values ∨ v ∈ endings.values → v.isMarker = false := by
    have hleft : ∀ v ∈ beginnings.values, v.isMarker = false := by decide
    have hright : ∀ v ∈ endings.values, v.isMarker = false := by decide
    exact fun v hv => hv.elim (hleft v) (hright v)
  obtain ⟨hok, hexact⟩ := concatEntry_exact {} .initial beginnings endings
  obtain ⟨e, he⟩ := hok.mpr hdata
  have hvalues : ((concatEntry beginnings endings).run {} .initial).1.map Entry.values =
      .ok [.str "abc", .str "ac", .str "abbc", .any .string] := by
    decide
  rw [he] at hvalues
  exact ⟨hdata, e, he, Except.ok.inj hvalues, (hexact e he).1⟩

end Eval

end AbsEval
