import AbsEval.Proofs.Comparison.Span

namespace AbsEval.Value

variable {l r l' r' v c : Value} {b : Bool}

-- Null is compared with a text as the empty text.
def comparesAsText : Value → Value → Bool
  | null, str _ | str _, null | null, any .string | any .string, null => true
  | _, _ => false

-- Two texts are compared as texts, all other numbers and texts as numbers.
def compareScalars? (op : CompareOp) (left right : Value) : Noted (Option Bool) :=
  match left, right with
  | str a, str b => .quiet (op.decide? (.ofTexts a b) .equal)
  | left, right =>
    match left.span?, right.span? with
    | some l, some r => .quiet (op.decide? l r)
    | _, _ => .quiet none

-- The rules that are left when null does not meet a text, in the order in which they are tried.
theorem compare?_rules {store : Store} {op : CompareOp} (h : comparesAsText l r = false) :
    compare? store op l r =
      if l.isBooleanLike || r.isBooleanLike then
        .quiet (op.decide? (.ofTruth? (l.truth? store)) (.ofTruth? (r.truth? store)))
      else if l.isArrayLike || r.isArrayLike then .quiet (compareArrays? op l r)
      else if l.isObjectLike || r.isObjectLike then compareObjects? op l r
      else compareScalars? op l r := by
  unfold compare?
  split
  · cases h
  · cases h
  · cases h
  · cases h
  · rfl

theorem compare?_of_not_text {store : Store} {op : CompareOp} (h : comparesAsText l r = false) :
    (compare? store op l r).result =
      if l.isBooleanLike || r.isBooleanLike then
        op.decide? (.ofTruth? (l.truth? store)) (.ofTruth? (r.truth? store))
      else if l.isArrayLike || r.isArrayLike then compareArrays? op l r
      else if l.isObjectLike || r.isObjectLike then (compareObjects? op l r).result
      else (compareScalars? op l r).result := by
  rw [compare?_rules h]
  split
  · rfl
  · split
    · rfl
    · split
      · rfl
      · rfl

theorem not_comparesAsText (h : (l.isBooleanLike || r.isBooleanLike) = false) :
    comparesAsText l r = false := by
  unfold comparesAsText
  split <;> first | rfl | cases h

-- Which rule applies to a value applies to what it stands for.

theorem isBooleanLike_of_admits (h : v.Admits c) (hv : v.isBooleanLike) : c.isBooleanLike := by
  rcases h with h | ⟨x, y, rfl, -, -⟩
  · cases v <;> try (obtain rfl := h; exact hv)
    case any kind =>
      cases kind <;> cases hv
      obtain ⟨b, rfl⟩ := exists_bool_of_describes h
      rfl
    all_goals cases hv
  · cases hv

theorem isArrayLike_of_admits (h : v.Admits c) (hv : v.isArrayLike) : c.isArrayLike := by
  rcases h with h | ⟨x, y, rfl, -, -⟩
  · cases v <;> try (obtain rfl := h; exact hv)
    case any kind =>
      cases kind <;> cases hv
      obtain ⟨id, rfl⟩ := exists_array_of_describes h
      rfl
    all_goals cases hv
  · cases hv

theorem families_ne_nil (hc : c.isConcrete) : c.families ≠ [] := by
  cases c <;> simp_all [families, isConcrete]

theorem isDefiniteScalar_of_admits (h : v.Admits c) (hv : v.isDefiniteScalar) :
    c.isDefiniteScalar := by
  have hsub := families_subset_of_admits h
  have hne := families_ne_nil (isConcrete_of_admits h)
  simp only [isDefiniteScalar, Bool.and_eq_true, Bool.not_eq_true', List.isEmpty_eq_false_iff,
    List.all_eq_true] at hv ⊢
  exact ⟨hne, fun family hf => hv.2 family (hsub hf)⟩

theorem not_like_of_isDefiniteScalar (h : v.isDefiniteScalar) :
    v.isBooleanLike = false ∧ v.isArrayLike = false := by
  cases v <;> try exact ⟨rfl, rfl⟩
  case any kind => cases kind <;> first | exact ⟨rfl, rfl⟩ | cases h
  all_goals cases h

theorem not_isBooleanLike_of_isArrayLike (h : v.isArrayLike) : v.isBooleanLike = false := by
  cases v <;> try rfl
  case any kind => cases kind <;> first | rfl | cases h
  all_goals cases h

-- Numbers and texts fall under no rule but the last.
theorem not_like_of_span? {s : Span} (h : v.span? = some s) :
    v.isBooleanLike = false ∧ v.isArrayLike = false ∧ v.isObjectLike = false := by
  cases v <;> try exact ⟨rfl, rfl, rfl⟩
  case any kind => cases kind <;> first | exact ⟨rfl, rfl, rfl⟩ | cases h
  all_goals cases h

theorem span?_of_admits {s : Span} (h : v.Admits c) (hs : v.span? = some s) :
    ∃ t, c.span? = some t ∧ t.Within s := by
  rcases h with h | ⟨x, y, rfl, rfl, hxy⟩
  · cases v
    case int n =>
      obtain rfl := h
      obtain rfl := Option.some.inj hs
      exact ⟨_, rfl, Span.ofInts_within (Double.natAbs_toInt_lt n) (Double.natAbs_toInt_lt n)
        (Int.le_refl _) (Int.le_refl _) (Int.le_refl _)⟩
    case float x =>
      obtain rfl := h
      obtain rfl := Option.some.inj hs
      exact ⟨_, rfl, Span.point_within_self x⟩
    case str text =>
      obtain rfl := h
      obtain rfl := Option.some.inj hs
      exact ⟨_, rfl, Span.point_within_self _⟩
    case resource id =>
      obtain rfl := h
      obtain rfl := Option.some.inj hs
      have hid : (id.toNat : Int).natAbs < 2 ^ 53 := by
        have := id.toNat_lt
        omega
      exact ⟨_, rfl, Span.ofInts_within hid hid (Int.le_refl _) (Int.le_refl _) (Int.le_refl _)⟩
    case intRange range =>
      obtain ⟨n, rfl, hn⟩ := h
      obtain rfl := Option.some.inj hs
      rw [Interval.contains_iff, Int32.le_iff_toInt_le, Int32.le_iff_toInt_le] at hn
      exact ⟨_, rfl, Span.ofInts_within (Double.natAbs_toInt_lt _) (Double.natAbs_toInt_lt _) hn.1
        (Int.le_refl _) hn.2⟩
    case floatRange range =>
      obtain ⟨x, rfl, hx⟩ := h
      obtain rfl := Option.some.inj hs
      exact ⟨_, rfl, Span.point_within_range hx⟩
    case any kind =>
      cases kind with
      | integer =>
        obtain ⟨n, rfl⟩ := exists_int_of_describes h
        obtain rfl := Option.some.inj hs
        exact ⟨_, rfl, Span.ofInts_within (Double.natAbs_toInt_lt _) (Double.natAbs_toInt_lt _)
          n.minValue_le_toInt (Int.le_refl _) n.toInt_le⟩
      | _ => cases hs
    all_goals cases hs
  · obtain rfl := Option.some.inj hs
    exact ⟨_, rfl, Span.point_within hxy⟩

theorem compareArrays?_of_admits {op : CompareOp} (hl : l.Admits l') (hr : r.Admits r')
    (h : compareArrays? op l r = some b) :
    compareArrays? op l' r' = some b ∧ (l'.isBooleanLike || r'.isBooleanLike) = false ∧
      (l'.isArrayLike || r'.isArrayLike) := by
  unfold compareArrays? at h
  split at h
  · next hrule =>
    rw [Bool.and_eq_true] at hrule
    have ha := isArrayLike_of_admits hl hrule.1
    have hs := isDefiniteScalar_of_admits hr hrule.2
    simp [compareArrays?, ha, hs, h, not_isBooleanLike_of_isArrayLike ha,
      not_like_of_isDefiniteScalar hs]
  · split at h
    · next hrule =>
      rw [Bool.and_eq_true] at hrule
      have ha := isArrayLike_of_admits hr hrule.1
      have hs := isDefiniteScalar_of_admits hl hrule.2
      simp [compareArrays?, ha, hs, h, not_isBooleanLike_of_isArrayLike ha,
        not_like_of_isDefiniteScalar hs]
    · split at h
      · next a b' _ _ =>
        obtain rfl := eq_of_admits rfl (by simp [families]) hl
        obtain rfl := eq_of_admits rfl (by simp [families]) hr
        exact ⟨by simpa [compareArrays?, isDefiniteScalar, families, Family.numeric] using h,
          rfl, rfl⟩
      · cases h

-- Beside null a text counts as true if it is not empty, whatever it says.

theorem ofTexts_empty_left (text : String) :
    Span.ofTexts "" text = if text = "" then Span.equal else Span.below := by
  unfold Span.ofTexts
  by_cases h : text = ""
  · simp [h]
  · have hlt : "" < text := by
      rw [String.lt_iff]
      cases hs : text.toList with
      | nil => exact absurd (String.toList_eq_nil_iff.mp hs) h
      | cons d ds => exact List.nil_lt_cons d ds
    simp [h, hlt]

theorem ofTexts_empty_right (text : String) :
    Span.ofTexts text "" = if text = "" then Span.equal else Span.above := by
  have hlt : ¬text < "" := by
    rw [String.lt_iff]
    exact List.not_lt_nil _
  unfold Span.ofTexts
  rw [if_neg hlt]

theorem decide?_below_equal (op : CompareOp) :
    op.decide? .below .equal = op.decide? .equal .above := by
  cases op <;> decide +kernel

theorem decide?_null_text (op : CompareOp) (text : String) :
    op.decide? (.ofTexts "" text) .equal =
      op.decide? (.ofTruth? (some false)) (.ofTruth? (some (text ≠ ""))) := by
  rw [ofTexts_empty_left]
  by_cases h : text = ""
  · simp [h, Span.ofTruth?, Span.equal]
  · simp only [h, if_false, ne_eq, not_false_eq_true, decide_true, decide?_below_equal]
    rfl

theorem decide?_text_null (op : CompareOp) (text : String) :
    op.decide? (.ofTexts text "") .equal =
      op.decide? (.ofTruth? (some (text ≠ ""))) (.ofTruth? (some false)) := by
  rw [ofTexts_empty_right]
  by_cases h : text = ""
  · simp [h, Span.ofTruth?, Span.equal]
  · simp only [h, if_false, ne_eq, not_false_eq_true, decide_true]
    rfl

theorem comparesAsText_comm (l r : Value) : comparesAsText l r = comparesAsText r l := by
  unfold comparesAsText
  split
  · rfl
  · rfl
  · rfl
  · rfl
  · split <;> simp_all

-- A value that may be a text, or null beside a text, has an open truth.
theorem truth?_eq_none_of_text (store : Store) {text : String} (hl : l.Admits null)
    (hr : r.Admits (str text)) (ht : comparesAsText l r = false)
    (hb : l.isBooleanLike || r.isBooleanLike) : r.truth? store = none := by
  have hl' := families_subset_of_admits hl
  have hr' : r = str text ∨ ∃ kind, r = any kind ∧ .string ∈ kind.families := by
    rcases hr with hr | ⟨x, y, -, h, -⟩
    · cases r <;> simp_all [Describes, isConcrete, families]
    · cases h
  rcases hr' with rfl | ⟨kind, rfl, hk⟩
  · cases l <;> simp_all [families, comparesAsText, isBooleanLike]
    next k => cases k <;> simp_all [Kind.families, Family.scalar, Family.compound]
  · cases kind <;> first | rfl | simp [Kind.families] at hk

theorem compare?_of_boolean {store : Store} {op : CompareOp} (hl : l.Admits l')
    (hr : r.Admits r') (ht : comparesAsText l r = false)
    (hb : l.isBooleanLike || r.isBooleanLike)
    (h : op.decide? (.ofTruth? (l.truth? store)) (.ofTruth? (r.truth? store)) = some b) :
    (compare? store op l' r').result = some b := by
  by_cases ht' : comparesAsText l' r'
  · unfold comparesAsText at ht'
    split at ht'
    · next text =>
      have hnone := truth?_eq_none_of_text store hl hr ht hb
      show op.decide? (.ofTexts "" text) .equal = some b
      rw [decide?_null_text]
      refine CompareOp.decide?_within (Span.ofTruth?_within fun c hc => ?_)
        (Span.ofTruth?_within fun c hc => ?_) h
      · exact truth?_of_admits hl hc
      · rw [hnone] at hc
        cases hc
    · next text =>
      rw [comparesAsText_comm] at ht
      rw [Bool.or_comm] at hb
      have hnone := truth?_eq_none_of_text store hr hl ht hb
      show op.decide? (.ofTexts text "") .equal = some b
      rw [decide?_text_null]
      refine CompareOp.decide?_within (Span.ofTruth?_within fun c hc => ?_)
        (Span.ofTruth?_within fun c hc => ?_) h
      · rw [hnone] at hc
        cases hc
      · exact truth?_of_admits hr hc
    · exact absurd (isConcrete_of_admits hr) (by simp [isConcrete])
    · exact absurd (isConcrete_of_admits hl) (by simp [isConcrete])
    · cases ht'
  · rw [Bool.not_eq_true] at ht'
    have hb' : l'.isBooleanLike || r'.isBooleanLike := by
      rw [Bool.or_eq_true] at hb ⊢
      exact hb.imp (isBooleanLike_of_admits hl) (isBooleanLike_of_admits hr)
    rw [compare?_of_not_text ht', if_pos hb']
    exact CompareOp.decide?_within (Span.ofTruth?_within fun c hc => truth?_of_admits hl hc)
      (Span.ofTruth?_within fun c hc => truth?_of_admits hr hc) h

theorem eq_str_of_span? {s : Span} {text : String} (h : v.Admits (str text))
    (hs : v.span? = some s) : v = str text := by
  rcases h with h | ⟨x, y, -, h, -⟩
  · cases v <;> simp_all [Describes]
    next kind =>
      cases kind with
      | integer => simp [families, Kind.families] at h
      | _ => cases hs
  · cases h

theorem compareScalars?_of_not_texts {op : CompareOp}
    (hn : ∀ a b, l = str a → r = str b → False) :
    compareScalars? op l r = .quiet (do op.decide? (← l.span?) (← r.span?)) := by
  unfold compareScalars?
  split
  · exact (hn _ _ rfl rfl).elim
  · cases l.span? <;> cases r.span? <;> rfl

theorem compareScalars?_of_spans {op : CompareOp} {s t : Span} (hl : l.span? = some s)
    (hr : r.span? = some t) (hn : ∀ a b, l = str a → r = str b → False) :
    (compareScalars? op l r).result = op.decide? s t := by
  rw [compareScalars?_of_not_texts hn, hl, hr]
  rfl

-- A definite answer is the answer for all values that are stood for, though these may be compared
-- by another rule.
theorem compare?_of_admits {store : Store} {op : CompareOp} (hl : l.Admits l')
    (hr : r.Admits r') (h : (compare? store op l r).result = some b) :
    (compare? store op l' r').result = some b := by
  have hdefinite := h
  by_cases ht : comparesAsText l r
  · unfold comparesAsText at ht
    split at ht
    · obtain rfl := eq_of_admits rfl (by simp [families]) hl
      obtain rfl := eq_of_admits rfl (by simp [families]) hr
      exact h
    · obtain rfl := eq_of_admits rfl (by simp [families]) hl
      obtain rfl := eq_of_admits rfl (by simp [families]) hr
      exact h
    · cases h
    · cases h
    · cases ht
  · rw [Bool.not_eq_true] at ht
    rw [compare?_of_not_text ht] at h
    split at h
    · next hb => exact compare?_of_boolean hl hr ht hb h
    · split at h
      · obtain ⟨h', hb', ha'⟩ := compareArrays?_of_admits hl hr h
        rw [compare?_of_not_text (not_comparesAsText hb'), if_neg (by simp [hb']), if_pos ha']
        exact h'
      · split at h
        · unfold compareObjects? at h
          split at h
          · obtain rfl := eq_of_admits rfl (by simp [families]) hl
            obtain rfl := eq_of_admits rfl (by simp [families]) hr
            exact hdefinite
          · split at h <;> cases h
        · unfold compareScalars? at h
          split at h
          · obtain rfl := eq_of_admits rfl (by simp [families]) hl
            obtain rfl := eq_of_admits rfl (by simp [families]) hr
            exact hdefinite
          · next hn =>
            split at h
            · next s t hs ht =>
              obtain ⟨s', hs', hws⟩ := span?_of_admits hl hs
              obtain ⟨t', ht', hwt⟩ := span?_of_admits hr ht
              obtain ⟨hbl, hal, hol⟩ := not_like_of_span? hs'
              obtain ⟨hbr, har, hor⟩ := not_like_of_span? ht'
              have hn' : ∀ a b, l' = str a → r' = str b → False := by
                rintro a b rfl rfl
                exact hn a b (eq_str_of_span? hl hs) (eq_str_of_span? hr ht)
              rw [compare?_of_not_text (not_comparesAsText (by simp [hbl, hbr])),
                if_neg (by simp [hbl, hbr]), if_neg (by simp [hal, har]),
                if_neg (by simp [hol, hor]), compareScalars?_of_spans hs' ht' hn']
              exact CompareOp.decide?_within hws hwt h
            · cases h

end AbsEval.Value
