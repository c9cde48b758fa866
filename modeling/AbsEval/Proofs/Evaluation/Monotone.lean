import AbsEval.Proofs.Evaluation.Observation
import AbsEval.Proofs.Store.Lookup
import AbsEval.Proofs.Conversion.Covers

namespace AbsEval

section Outcome

variable {α β : Type} {x : Except Fault α} {b : β}

theorem bind_eq_ok {f : α → Except Fault β} (h : x >>= f = .ok b) :
    ∃ a, x = .ok a ∧ f a = .ok b := by
  cases x with
  | error fault => cases h
  | ok a => exact ⟨a, rfl, h⟩

theorem map_eq_ok {f : α → β} (h : x.map f = .ok b) : ∃ a, x = .ok a ∧ f a = b := by
  cases x with
  | error fault => cases h
  | ok a =>
    cases h
    exact ⟨a, rfl, rfl⟩

end Outcome

section Traversal

variable {α β : Type} {f : α → Except Fault β} {xs ys : List α} {bs : List β}

theorem exists_of_mapM_eq_ok (h : xs.mapM f = .ok bs) {x : α} (hx : x ∈ xs) :
    ∃ b ∈ bs, f x = .ok b := by
  induction xs generalizing bs with
  | nil => cases hx
  | cons head tail ih =>
    rw [List.mapM_cons] at h
    obtain ⟨b, hhead, h⟩ := bind_eq_ok h
    obtain ⟨rest, htail, h⟩ := bind_eq_ok h
    cases h
    rcases List.mem_cons.mp hx with rfl | hx
    · exact ⟨b, List.mem_cons_self, hhead⟩
    · obtain ⟨b', hb', hf⟩ := ih htail hx
      exact ⟨b', List.mem_cons_of_mem _ hb', hf⟩

theorem mapM_eq_ok_of_forall (h : ∀ x ∈ xs, ∃ b ∈ bs, f x = .ok b) :
    ∃ results, xs.mapM f = .ok results ∧ results ⊆ bs := by
  induction xs with
  | nil => exact ⟨[], rfl, List.nil_subset bs⟩
  | cons head tail ih =>
    obtain ⟨⟨b, hb, hhead⟩, htail⟩ := List.forall_mem_cons.mp h
    obtain ⟨rest, hrest, hsub⟩ := ih htail
    refine ⟨b :: rest, ?_, List.cons_subset.mpr ⟨hb, hsub⟩⟩
    rw [List.mapM_cons, hhead, hrest]
    rfl

-- Fewer arguments fail no more and give no other results.
theorem mapM_of_subset (hne : xs ≠ []) (hsub : xs ⊆ ys) (h : ys.mapM f = .ok bs) :
    ∃ results, xs.mapM f = .ok results ∧ results ≠ [] ∧ results ⊆ bs := by
  obtain ⟨results, hresults, hwithin⟩ :=
    mapM_eq_ok_of_forall fun x hx => exists_of_mapM_eq_ok h (hsub hx)
  obtain ⟨x, hx⟩ := List.exists_mem_of_ne_nil xs hne
  obtain ⟨b, hb, -⟩ := exists_of_mapM_eq_ok hresults hx
  exact ⟨results, hresults, List.ne_nil_of_mem hb, hwithin⟩

end Traversal

namespace Entry

-- A concrete value that an entry stands for.
def Describes (e : Entry) (c : Value) : Prop :=
  ∃ v ∈ e.values, v.Describes c

def Covers (e f : Entry) : Prop :=
  ∀ c, f.Describes c → e.Describes c

theorem covers_ofNonempty {vs ws : List Value} {hv : vs ≠ []} {hw : ws ≠ []} (h : ws ⊆ vs) :
    (ofNonempty vs hv).Covers (ofNonempty ws hw) := by
  rintro c ⟨v, hmem, hc⟩
  rw [mem_ofNonempty] at hmem
  exact ⟨v, (mem_ofNonempty hv).mpr (h hmem), hc⟩

theorem covers_single {u v : Value} (h : u.Covers v) : (Entry.single u).Covers (.single v) := by
  rintro c ⟨w, hw, hc⟩
  rw [List.mem_singleton.mp hw] at hc
  exact ⟨u, List.mem_singleton.mpr rfl, h c hc⟩

end Entry

namespace Texts

variable {l l' r r' : Texts}

structure Within (l l' : Texts) : Prop where
  known : l.known ⊆ l'.known
  unknown : l.hasUnknown → l'.hasUnknown

theorem mem_toValues {v : Value} :
    v ∈ l.toValues ↔ (∃ text ∈ l.known, .str text = v) ∨ l.hasUnknown ∧ v = .any .string := by
  cases h : l.hasUnknown <;> simp [toValues, h]

theorem toValues_subset (h : l.Within l') : l.toValues ⊆ l'.toValues := by
  intro v hv
  rw [mem_toValues] at hv ⊢
  rcases hv with ⟨text, htext, rfl⟩ | ⟨hunknown, rfl⟩
  · exact .inl ⟨text, h.known htext, rfl⟩
  · exact .inr ⟨h.unknown hunknown, rfl⟩

theorem append_within (hl : l.Within l') (hr : r.Within r') :
    (l.append r).Within (l'.append r') := by
  constructor
  · intro text htext
    obtain ⟨a, ha, htext⟩ := List.mem_flatMap.mp htext
    obtain ⟨b, hb, rfl⟩ := List.mem_map.mp htext
    exact List.mem_flatMap.mpr ⟨a, hl.known ha, List.mem_map.mpr ⟨b, hr.known hb, rfl⟩⟩
  · intro h
    rcases (Bool.or_eq_true _ _).mp h with h | h
    · exact (Bool.or_eq_true _ _).mpr (.inl (hl.unknown h))
    · exact (Bool.or_eq_true _ _).mpr (.inr (hr.unknown h))

theorem mem_known_ofList {texts : List (Option String)} {text : String} :
    text ∈ (ofList texts).known ↔ some text ∈ texts := by
  simp [ofList, List.mem_eraseDups]

theorem hasUnknown_ofList {texts : List (Option String)} :
    (ofList texts).hasUnknown ↔ none ∈ texts := by
  simp [ofList]

theorem ofList_within {texts texts' : List (Option String)} (h : texts ⊆ texts') :
    (ofList texts).Within (ofList texts') := by
  constructor
  · intro text htext
    rw [mem_known_ofList] at htext ⊢
    exact h htext
  · rw [hasUnknown_ofList, hasUnknown_ofList]
    exact fun hunknown => h hunknown

-- There is a text, known or not.
theorem toValues_ofList_ne_nil {texts : List (Option String)} (h : texts ≠ []) :
    (ofList texts).toValues ≠ [] := by
  obtain ⟨text, htext⟩ := List.exists_mem_of_ne_nil texts h
  refine List.ne_nil_of_mem (mem_toValues.mpr ?_ : Value.ofText? text ∈ _)
  cases text with
  | none => exact .inr ⟨hasUnknown_ofList.mpr htext, rfl⟩
  | some text => exact .inl ⟨text, mem_known_ofList.mpr htext, rfl⟩

theorem toValues_append_ne_nil (hl : l.toValues ≠ []) (hr : r.toValues ≠ []) :
    (l.append r).toValues ≠ [] := by
  obtain ⟨v, hv⟩ := List.exists_mem_of_ne_nil _ hl
  obtain ⟨w, hw⟩ := List.exists_mem_of_ne_nil _ hr
  have hunknown (h : l.hasUnknown ∨ r.hasUnknown) : .any .string ∈ (l.append r).toValues :=
    mem_toValues.mpr (.inr ⟨(Bool.or_eq_true _ _).mpr h, rfl⟩)
  rcases mem_toValues.mp hv with ⟨a, ha, -⟩ | ⟨h, -⟩
  · rcases mem_toValues.mp hw with ⟨b, hb, -⟩ | ⟨h, -⟩
    · have htext : a ++ b ∈ (l.append r).known :=
        List.mem_flatMap.mpr ⟨a, ha, List.mem_map.mpr ⟨b, hb, rfl⟩⟩
      exact List.ne_nil_of_mem (mem_toValues.mpr (.inl ⟨_, htext, rfl⟩))
    · exact List.ne_nil_of_mem (hunknown (.inr h))
  · exact List.ne_nil_of_mem (hunknown (.inl h))

theorem ofEntry_of_subset {e e' : Entry} (hsub : e.values ⊆ e'.values)
    (h : ofEntry e' = .ok l') : ∃ l, ofEntry e = .ok l ∧ l.Within l' ∧ l.toValues ≠ [] := by
  obtain ⟨texts', htexts', rfl⟩ := map_eq_ok h
  obtain ⟨texts, htexts, hne, hwithin⟩ := mapM_of_subset e.nonempty hsub htexts'
  refine ⟨ofList texts, ?_, ofList_within hwithin, toValues_ofList_ne_nil hne⟩
  rw [ofEntry, htexts]
  rfl

end Texts

-- A truth that is at least as definite: what is settled stays as it is.
def Refines (truth truth' : Option Bool) : Prop :=
  ∀ b, truth' = some b → truth = some b

theorem Value.covers_of_refines {truth truth' : Option Bool} (h : Refines truth truth') :
    (ofTruth? truth').Covers (ofTruth? truth) := by
  cases truth' with
  | none => exact any_covers (families_ofTruth? truth)
  | some b =>
    rw [h b rfl]
    exact covers_refl _

namespace Entry

theorem sharedTruth?_eq_some_iff {truths : List (Option Bool)} (hne : truths ≠ []) {b : Bool} :
    sharedTruth? truths = some b ↔ ∀ truth ∈ truths, truth = some b := by
  obtain ⟨truth, htruth⟩ := List.exists_mem_of_ne_nil truths hne
  unfold sharedTruth?
  simp only [List.all_eq_true, decide_eq_true_eq]
  constructor
  · intro h
    split at h
    · next hall =>
      cases h
      exact hall
    · split at h
      · next hall =>
        cases h
        exact hall
      · cases h
  · intro hall
    cases b with
    | true => rw [if_pos hall]
    | false =>
      have hsome : ¬∀ truth ∈ truths, truth = some true := by
        intro h
        have hboth := (h truth htruth).symm.trans (hall truth htruth)
        cases hboth
      rw [if_neg hsome, if_pos hall]

theorem truth_of_subset {e e' : Entry} {store : Store} {truth' : Option Bool}
    (hsub : e.values ⊆ e'.values) (h : e'.truth store = .ok truth') :
    ∃ truth, e.truth store = .ok truth ∧ Refines truth truth' := by
  obtain ⟨truths', htruths', rfl⟩ := map_eq_ok h
  obtain ⟨truths, htruths, hne, hwithin⟩ := mapM_of_subset e.nonempty hsub htruths'
  have hne' : truths' ≠ [] := by
    rintro rfl
    exact hne (List.subset_nil.mp hwithin)
  refine ⟨sharedTruth? truths, ?_, fun b hb => ?_⟩
  · rw [Entry.truth, htruths]
    rfl
  · rw [sharedTruth?_eq_some_iff hne'] at hb
    rw [sharedTruth?_eq_some_iff hne]
    exact fun truth htruth => hb truth (hwithin htruth)

end Entry

namespace LogicOp

variable {op : LogicOp} {l l' r r' : Option Bool}

-- An operand that settles the result gives it with any other operand.

theorem combine_of_settledBy (h : op.settledBy l) (r : Option Bool) : op.combine l r = l := by
  rcases op with _ | _ | _ <;> rcases l with _ | _ | _ <;> first | rfl | cases h

theorem combine_comm (l r : Option Bool) : op.combine l r = op.combine r l := by
  rcases op with _ | _ | _ <;> rcases l with _ | _ | _ <;> rcases r with _ | _ | _ <;> rfl

theorem settled_or_known {b : Bool} (h : op.combine l r = some b) :
    op.settledBy l ∧ l = some b ∨ op.settledBy r ∧ r = some b ∨
      (∃ x, l = some x) ∧ ∃ y, r = some y := by
  by_cases hl : op.settledBy l
  · rw [combine_of_settledBy hl] at h
    exact .inl ⟨hl, h⟩
  by_cases hr : op.settledBy r
  · rw [combine_comm, combine_of_settledBy hr] at h
    exact .inr (.inl ⟨hr, h⟩)
  -- Neither operand settles it, and an open one would leave it open.
  refine .inr (.inr ?_)
  cases l with
  | none => rcases op with _ | _ | _ <;> rcases r with _ | _ | _ <;> first | cases hr rfl | cases h
  | some x =>
    cases r with
    | none => rcases op with _ | _ | _ <;> cases x <;> first | cases hl rfl | cases h
    | some y => exact ⟨⟨x, rfl⟩, y, rfl⟩

theorem combine_refines (hl : Refines l l') (hr : Refines r r') :
    Refines (op.combine l r) (op.combine l' r') := by
  intro b hb
  rcases settled_or_known hb with ⟨hsettled, rfl⟩ | ⟨hsettled, rfl⟩ | ⟨⟨x, rfl⟩, y, rfl⟩
  · rw [hl b rfl, combine_of_settledBy hsettled]
  · rw [hr b rfl, combine_comm, combine_of_settledBy hsettled]
  · rw [hl x rfl, hr y rfl, hb]

theorem eq_of_refines_settled (hl : Refines l l') (h : op.settledBy l') : l = l' := by
  cases l' with
  | none => cases op <;> cases h
  | some b => exact hl b rfl

-- Where the larger left operand settles the result, so does the smaller one. Where only the smaller
-- one does, what is left out would not change the result.
theorem ofEntries_of_subset {store : Store} {left left' right right' : Entry}
    {truth' : Option Bool} (hl : left.values ⊆ left'.values) (hr : right.values ⊆ right'.values)
    (h : op.ofEntries store left' right' = .ok truth') :
    ∃ truth, op.ofEntries store left right = .ok truth ∧ Refines truth truth' := by
  unfold ofEntries at h ⊢
  obtain ⟨l', hleft', -⟩ := bind_eq_ok h
  obtain ⟨l, hleft, hll⟩ := Entry.truth_of_subset hl hleft'
  rw [hleft', evaluate_ok] at h
  rw [hleft, evaluate_ok]
  by_cases hsettled' : op.settledBy l'
  · obtain rfl := eq_of_refines_settled hll hsettled'
    rw [if_pos hsettled'] at h ⊢
    exact ⟨truth', h, fun _ hb => hb⟩
  · rw [if_neg hsettled'] at h
    obtain ⟨r', hright', rfl⟩ := map_eq_ok h
    obtain ⟨r, hright, hrr⟩ := Entry.truth_of_subset hr hright'
    refine ⟨op.combine l r, ?_, combine_refines hll hrr⟩
    by_cases hsettled : op.settledBy l
    · rw [if_pos hsettled, combine_of_settledBy hsettled]
    · rw [if_neg hsettled, hright]
      rfl

end LogicOp

namespace Eval

variable {α : Type} {options : Options} {state : State}

-- More possible operands: where these give a result, so do fewer, and it is covered.
def Widens (options : Options) (state : State) (narrow wide : Eval Entry) : Prop :=
  ∀ e', (wide.run options state).1 = .ok e' →
    ∃ e, (narrow.run options state).1 = .ok e ∧ e'.Covers e

theorem collect_eq_ok {results : List Value} {e : Entry}
    (h : ((collect results).run options state).1 = .ok e) :
    ∃ hne : results ≠ [], e = .ofNonempty results hne := by
  unfold collect Entry.ofList? at h
  by_cases hne : results ≠ []
  · rw [dif_pos hne] at h
    cases h
    exact ⟨hne, rfl⟩
  · rw [dif_neg hne] at h
    cases h

theorem run_collect {results : List Value} (hne : results ≠ []) :
    (collect results).run options state = (.ok (.ofNonempty results hne), state) := by
  unfold collect Entry.ofList?
  rw [dif_pos hne]
  rfl

-- Results that are collected from fewer values are fewer.
theorem widens_collect {f : α → Eval Value} {xs ys : List α} (hne : xs ≠ []) (hsub : xs ⊆ ys)
    (hf : ∀ y ∈ ys, Observes options (f y)) :
    Widens options state (xs.mapM f >>= collect) (ys.mapM f >>= collect) := by
  have hf' : ∀ x ∈ xs, Observes options (f x) := fun x hx => hf x (hsub hx)
  intro e' h
  rw [(observes_mapM hf).fst_run_bind observes_collect, fst_run_mapM hf] at h
  rw [(observes_mapM hf').fst_run_bind observes_collect, fst_run_mapM hf']
  obtain ⟨bs, hys, h⟩ := bind_eq_ok h
  obtain ⟨hbs, rfl⟩ := collect_eq_ok h
  obtain ⟨results, hxs, hsome, hresults⟩ := mapM_of_subset hne hsub hys
  refine ⟨.ofNonempty results hsome, ?_, Entry.covers_ofNonempty hresults⟩
  rw [hxs]
  exact congrArg Prod.fst (run_collect hsome)

theorem widens_forEntry {f : Value → Eval Value} {e e' : Entry} (hsub : e.values ⊆ e'.values)
    (hf : ∀ v ∈ e'.values, Observes options (f v)) :
    Widens options state (forEntry e f) (forEntry e' f) :=
  widens_collect e.nonempty hsub hf

theorem fst_run_concatEntry (left right : Entry) :
    ((concatEntry left right).run options state).1 =
      Texts.ofEntry left >>= fun l => Texts.ofEntry right >>= fun r =>
        ((collect (l.append r).toValues).run options state).1 := by
  unfold concatEntry
  cases Texts.ofEntry left with
  | error fault => rfl
  | ok l => cases Texts.ofEntry right <;> rfl

theorem widens_concat {left left' right right' : Entry} (hl : left.values ⊆ left'.values)
    (hr : right.values ⊆ right'.values) :
    Widens options state (concatEntry left right) (concatEntry left' right') := by
  intro e' h
  rw [fst_run_concatEntry] at h ⊢
  obtain ⟨l', hleft', h⟩ := bind_eq_ok h
  obtain ⟨r', hright', h⟩ := bind_eq_ok h
  obtain ⟨hne, rfl⟩ := collect_eq_ok h
  obtain ⟨l, hleft, hll, hlne⟩ := Texts.ofEntry_of_subset hl hleft'
  obtain ⟨r, hright, hrr, hrne⟩ := Texts.ofEntry_of_subset hr hright'
  have hsome := Texts.toValues_append_ne_nil hlne hrne
  have hsub := Texts.toValues_subset (Texts.append_within hll hrr)
  refine ⟨.ofNonempty _ hsome, ?_, Entry.covers_ofNonempty hsub⟩
  rw [hleft, hright]
  exact congrArg Prod.fst (run_collect hsome)

theorem widens_logic {op : LogicOp} {left left' right right' : Entry}
    (hl : left.values ⊆ left'.values) (hr : right.values ⊆ right'.values) :
    Widens options state (binaryEntry left (.logic op) right)
      (binaryEntry left' (.logic op) right') := by
  intro e' h
  rw [run_binaryEntry_logicEntry] at h ⊢
  obtain ⟨truth', htruth', rfl⟩ := map_eq_ok h
  obtain ⟨truth, htruth, hrefines⟩ := LogicOp.ofEntries_of_subset hl hr htruth'
  refine ⟨.single (.ofTruth? truth), ?_, Entry.covers_single (Value.covers_of_refines hrefines)⟩
  rw [htruth]
  rfl

theorem widens_pairs {op : BinaryOp} {left left' right right' : Entry} (hconcat : op ≠ .concat)
    (hlogic : ∀ logic, op ≠ .logic logic) (hl : left.values ⊆ left'.values)
    (hr : right.values ⊆ right'.values)
    (h : ∀ l ∈ left'.values, ∀ r ∈ right'.values, ¬BinaryOp.UnitesArrays options l op r) :
    Widens options state (binaryEntry left op right) (binaryEntry left' op right') := by
  rw [binaryEntry_pairs hconcat hlogic, binaryEntry_pairs hconcat hlogic]
  refine widens_collect ?_ ?_ ?_
  · obtain ⟨l, hl⟩ := List.exists_mem_of_ne_nil _ left.nonempty
    obtain ⟨r, hr⟩ := List.exists_mem_of_ne_nil _ right.nonempty
    exact List.ne_nil_of_mem (List.mem_flatMap.mpr ⟨l, hl, List.mem_map.mpr ⟨r, hr, rfl⟩⟩)
  · intro pair hpair
    obtain ⟨l, hmem, hpair⟩ := List.mem_flatMap.mp hpair
    obtain ⟨r, hmem', rfl⟩ := List.mem_map.mp hpair
    exact List.mem_flatMap.mpr ⟨l, hl hmem, List.mem_map.mpr ⟨r, hr hmem', rfl⟩⟩
  · intro pair hpair
    obtain ⟨l, hmem, hpair⟩ := List.mem_flatMap.mp hpair
    obtain ⟨r, hmem', rfl⟩ := List.mem_map.mp hpair
    exact observes_binary (h l hmem r hmem')

-- More possible operands never lose a result. What makes no container fails on fewer values only
-- where it fails on more, and all that it may give for fewer it may give for more.
theorem entries_monotone (options : Options) (state : State) {left left' : Entry}
    (hl : left.values ⊆ left'.values) :
    (∀ op : UnaryOp, op.makesContainer = false →
      Widens options state (unaryEntry op left) (unaryEntry op left')) ∧
    (∀ op : CountOp, Widens options state (countEntry op left) (countEntry op left')) ∧
    ∀ (op : BinaryOp) {right right' : Entry}, right.values ⊆ right'.values →
      (∀ l ∈ left'.values, ∀ r ∈ right'.values, ¬op.UnitesArrays options l r) →
      Widens options state (binaryEntry left op right) (binaryEntry left' op right') := by
  refine ⟨fun op hop => ?_, fun op => ?_, fun op right right' hr hnone => ?_⟩
  · exact widens_forEntry hl fun v _ => observes_unary hop v
  · exact widens_forEntry hl fun v _ => observes_count op v
  · by_cases hconcat : op = .concat
    · subst hconcat
      exact widens_concat hl hr
    by_cases hlogic : ∃ logic, op = .logic logic
    · obtain ⟨logic, rfl⟩ := hlogic
      exact widens_logic hl hr
    exact widens_pairs hconcat (not_exists.mp hlogic) hl hr hnone

-- `false` settles a conjunction, and either truth leaves it open.
def either : Entry := (Entry.single (.bool false)).insert (.bool true)

theorem entries_monotone_either :
    (((unaryEntry .not (.single (.bool false))).run {} .initial).1 = .ok (.single (.bool true)) ∧
      ((unaryEntry .not either).run {} .initial).1 =
        .ok ((Entry.single (.bool true)).insert (.bool false)) ∧
      ((Entry.single (.bool true)).insert (.bool false)).Covers (.single (.bool true))) ∧
    (((countEntry .increment (.single (.bool false))).run {} .initial).1 =
        .ok (.single (.bool false)) ∧
      ((countEntry .increment either).run {} .initial).1 = .ok either ∧
      either.Covers (.single (.bool false))) ∧
    ((binaryEntry (.single (.bool false)) (.logic .and) (.single (.bool true))).run {}
        .initial).1 = .ok (.single (.bool false)) ∧
      ((binaryEntry either (.logic .and) (.single (.bool true))).run {} .initial).1 =
        .ok (.single (.any .boolean)) ∧
      (Entry.single (.any .boolean)).Covers (.single (.bool false)) := by
  have hsub : (Entry.single (.bool false)).values ⊆ either.values := by decide
  have hnone : ∀ l ∈ either.values, ∀ r ∈ (Entry.single (.bool true)).values,
      ¬BinaryOp.UnitesArrays {} l (.logic .and) r := by
    rintro l - r - ⟨hop, -⟩
    cases hop
  obtain ⟨hunary, hcount, hbinary⟩ := entries_monotone {} .initial hsub
  obtain ⟨e, hnot, hcovers⟩ := hunary .not rfl _ rfl
  obtain ⟨f, hincrement, hcovers'⟩ := hcount .increment _ rfl
  obtain ⟨g, hand, hcovers''⟩ := hbinary (.logic .and) (List.Subset.refl _) hnone _ rfl
  obtain rfl := Except.ok.inj hnot
  obtain rfl := Except.ok.inj hincrement
  obtain rfl := Except.ok.inj hand
  exact ⟨⟨rfl, rfl, hcovers⟩, ⟨rfl, rfl, hcovers'⟩, rfl, rfl, hcovers''⟩

end Eval

end AbsEval
