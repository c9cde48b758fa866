import AbsEval.Proofs.Comparison.Definite

namespace AbsEval

namespace CompareOp

-- The comparison that says the same with its operands exchanged.
def mirrored : CompareOp → CompareOp
  | equal => equal
  | notEqual => notEqual
  | less => greater
  | lessEq => greaterEq
  | greater => less
  | greaterEq => lessEq

-- The comparison that says the contrary.
def opposite : CompareOp → CompareOp
  | equal => notEqual
  | notEqual => equal
  | less => greaterEq
  | lessEq => greater
  | greater => lessEq
  | greaterEq => less

end CompareOp

def IdentityOp.opposite : IdentityOp → IdentityOp
  | identical => notIdentical
  | notIdentical => identical

namespace BinaryOp

-- Identity is the same from both sides.
def mirrored : BinaryOp → BinaryOp
  | compare op => compare op.mirrored
  | op => op

def opposite : BinaryOp → BinaryOp
  | compare op => compare op.opposite
  | identity op => identity op.opposite
  | op => op

end BinaryOp

namespace Span

-- The ends are in order, or one of them is no number.
def Ordered (s : Span) : Prop :=
  ¬s.high < s.low

theorem ordered_point (x : Double) : (point x).Ordered :=
  (point_within_self x).ordered

theorem ordered_ofInts {a b : Int} (ha : a.natAbs < 2 ^ 53) (hb : b.natAbs < 2 ^ 53)
    (h : a ≤ b) : (ofInts a b).Ordered :=
  (ofInts_within ha hb (Int.le_refl a) h (Int.le_refl b)).ordered

theorem ordered_ofTruth? (truth : Option Bool) : (ofTruth? truth).Ordered :=
  (ofTruth?_within fun _ h => h : (ofTruth? truth).Within _).ordered

theorem ordered_equal : equal.Ordered :=
  ordered_ofTruth? (some false)

theorem ordered_above : above.Ordered :=
  ordered_ofTruth? (some true)

theorem ordered_ofTexts (a b : String) : (ofTexts a b).Ordered := by
  unfold ofTexts
  split
  · exact ordered_ofInts (by decide) (by decide) (Int.le_refl _)
  · split
    · exact ordered_equal
    · exact ordered_above

end Span

namespace CompareOp

variable {s t : Span}

theorem equal?_comm (s t : Span) : equal? s t = equal? t s := by
  have hsame : (s.low.numEq s.high && t.low.numEq t.high && s.low.numEq t.low) =
      (t.low.numEq t.high && s.low.numEq s.high && t.low.numEq s.low) := by
    rw [Double.numEq_comm s.low t.low, Bool.and_comm (s.low.numEq s.high)]
  unfold equal?
  rw [hsame, Bool.or_comm]

theorem decide?_mirrored (op : CompareOp) (s t : Span) :
    op.mirrored.decide? s t = op.decide? t s := by
  cases op with
  | equal => exact equal?_comm s t
  | notEqual => exact congrArg (Option.map not) (equal?_comm s t)
  | less | lessEq | greater | greaterEq => rfl

-- At most one of the two tests succeeds, so it does not matter which is made first.
theorem lessEq?_eq_not_less? (hs : s.Ordered) (ht : t.Ordered) :
    lessEq? t s = (less? s t).map not := by
  unfold lessEq? less?
  by_cases hle : t.high ≤ s.low
  · have hnot : ¬s.high < t.low := Double.not_lt_of_ordered hs ht hle
    simp [hle, hnot]
  · by_cases hlt : s.high < t.low <;> simp [hle, hlt]

theorem map_not_map_not (truth : Option Bool) : (truth.map not).map not = truth := by
  cases truth <;> simp

theorem decide?_opposite (op : CompareOp) (hs : s.Ordered) (ht : t.Ordered) :
    op.opposite.decide? s t = (op.decide? s t).map not := by
  cases op with
  | equal => rfl
  | notEqual => exact (map_not_map_not _).symm
  | less => exact lessEq?_eq_not_less? hs ht
  | lessEq =>
    show less? t s = (lessEq? s t).map not
    rw [lessEq?_eq_not_less? ht hs, map_not_map_not]
  | greater => exact lessEq?_eq_not_less? ht hs
  | greaterEq =>
    show less? s t = (lessEq? t s).map not
    rw [lessEq?_eq_not_less? hs ht, map_not_map_not]

-- A rule for two operands and the rule for the same operands exchanged, whatever is asked of them:
-- both look at the same two spans, or both leave the answer open with the same warnings.
inductive Mirrors (forward backward : CompareOp → Noted (Option Bool)) : Prop where
  | spans {s t : Span} (hs : s.Ordered) (ht : t.Ordered)
      (hforward : ∀ op, forward op = .quiet (op.decide? s t))
      (hbackward : ∀ op, backward op = .quiet (op.decide? t s))
  | unknown {warnings : List Warning} (hforward : ∀ op, forward op = ⟨none, warnings⟩)
      (hbackward : ∀ op, backward op = ⟨none, warnings⟩)

variable {forward backward : CompareOp → Noted (Option Bool)}

theorem Mirrors.symm (h : Mirrors forward backward) : Mirrors backward forward := by
  cases h with
  | spans hs ht hforward hbackward => exact .spans ht hs hbackward hforward
  | unknown hforward hbackward => exact .unknown hbackward hforward

theorem Mirrors.mirrored (h : Mirrors forward backward) (op : CompareOp) :
    forward op.mirrored = backward op := by
  cases h with
  | spans hs ht hforward hbackward => rw [hforward, hbackward, decide?_mirrored]
  | unknown hforward hbackward => rw [hforward, hbackward]

theorem Mirrors.opposite (h : Mirrors forward backward) (op : CompareOp) :
    forward op.opposite = ⟨(forward op).result.map not, (forward op).warnings⟩ := by
  cases h with
  | spans hs ht hforward hbackward =>
    rw [hforward, hforward, decide?_opposite op hs ht]
    rfl
  | unknown hforward hbackward =>
    rw [hforward, hforward]
    rfl

end CompareOp

namespace Value

open CompareOp (Mirrors decide?_mirrored)

variable {l r : Value}

theorem ofTexts_cases (a b : String) :
    Span.ofTexts a b = .below ∧ Span.ofTexts b a = .above ∨
      Span.ofTexts a b = .equal ∧ Span.ofTexts b a = .equal ∨
      Span.ofTexts a b = .above ∧ Span.ofTexts b a = .below := by
  unfold Span.ofTexts
  by_cases hlt : a < b
  · have hne : b ≠ a := fun h => String.lt_irrefl a (h ▸ hlt)
    exact .inl (by simp [hlt, String.lt_asymm hlt, hne])
  · by_cases hgt : b < a
    · have hne : a ≠ b := fun h => String.lt_irrefl a (h ▸ hgt)
      exact .inr (.inr (by simp [hlt, hgt, hne]))
    · have heq : a = b := String.le_antisymm (String.not_lt.mp hgt) (String.not_lt.mp hlt)
      exact .inr (.inl (by simp [heq]))

-- The place of one text relative to another is held against the middle, on whichever side.
theorem decide?_ofTexts_comm (op : CompareOp) (a b : String) :
    op.decide? (.ofTexts b a) .equal = op.decide? .equal (.ofTexts a b) := by
  rcases ofTexts_cases a b with ⟨hab, hba⟩ | ⟨hab, hba⟩ | ⟨hab, hba⟩
  · rw [hab, hba, ← decide?_mirrored, ← decide?_below_equal, decide?_mirrored]
  · rw [hab, hba]
  · rw [hab, hba, decide?_below_equal]

theorem mirrors_texts (a b : String) :
    Mirrors (fun op => .quiet (op.decide? (.ofTexts a b) .equal))
      (fun op => .quiet (op.decide? (.ofTexts b a) .equal)) :=
  .spans (Span.ordered_ofTexts a b) Span.ordered_equal (fun _ => rfl) fun op => by
    rw [decide?_ofTexts_comm]

theorem ordered_of_span? {v : Value} {s : Span} (h : v.span? = some s) : s.Ordered := by
  cases v with
  | int n =>
    obtain rfl := Option.some.inj h
    exact Span.ordered_ofInts (Double.natAbs_toInt_lt n) (Double.natAbs_toInt_lt n) (Int.le_refl _)
  | float x =>
    obtain rfl := Option.some.inj h
    exact Span.ordered_point x
  | str text =>
    obtain rfl := Option.some.inj h
    exact Span.ordered_point _
  | resource id =>
    obtain rfl := Option.some.inj h
    have hid : (id.toNat : Int).natAbs < 2 ^ 53 := by
      have := id.toNat_lt
      omega
    exact Span.ordered_ofInts hid hid (Int.le_refl _)
  | intRange range =>
    obtain rfl := Option.some.inj h
    exact Span.ordered_ofInts (Double.natAbs_toInt_lt _) (Double.natAbs_toInt_lt _)
      (Int32.le_iff_toInt_le.mp range.ordered)
  | floatRange range =>
    obtain rfl := Option.some.inj h
    exact Double.not_lt_of_le range.ordered
  | any kind =>
    cases kind with
    | integer =>
      obtain rfl := Option.some.inj h
      exact Span.ordered_ofInts (Double.natAbs_toInt_lt _) (Double.natAbs_toInt_lt _) (by decide)
    | _ => cases h
  | _ => cases h

theorem mirrors_scalars (l r : Value) :
    Mirrors (fun op => compareScalars? op l r) (fun op => compareScalars? op r l) := by
  by_cases htexts : ∃ a b, l = str a ∧ r = str b
  · obtain ⟨a, b, rfl, rfl⟩ := htexts
    exact mirrors_texts a b
  · simp only [compareScalars?_of_not_texts fun a b hl hr => htexts ⟨a, b, hl, hr⟩,
      compareScalars?_of_not_texts fun b a hr hl => htexts ⟨a, b, hl, hr⟩]
    cases hs : l.span? with
    | none => exact .unknown (fun _ => rfl) fun _ => by cases r.span? <;> rfl
    | some s =>
      cases ht : r.span? with
      | none => exact .unknown (fun _ => rfl) fun _ => rfl
      | some t =>
        exact .spans (ordered_of_span? hs) (ordered_of_span? ht) (fun _ => rfl) fun _ => rfl

-- Arrays and objects are equal to themselves, and nothing is known of two.
theorem mirrors_ids (a b : UInt32) :
    Mirrors (fun op => .quiet (if a = b then op.decide? .equal .equal else none))
      (fun op => .quiet (if b = a then op.decide? .equal .equal else none)) := by
  by_cases hab : a = b
  · subst hab
    exact .spans Span.ordered_equal Span.ordered_equal (fun _ => by rw [if_pos rfl])
      fun _ => by rw [if_pos rfl]
  · simp only [hab, Ne.symm hab, if_false]
    exact .unknown (fun _ => rfl) fun _ => rfl

theorem mirrors_array_scalar (hl : l.isArrayLike) (hr : r.isDefiniteScalar) :
    Mirrors (fun op => .quiet (compareArrays? op l r))
      (fun op => .quiet (compareArrays? op r l)) := by
  have hr' := (not_like_of_isDefiniteScalar hr).2
  refine .spans Span.ordered_above Span.ordered_equal (fun op => ?_) fun op => ?_
  · simp [compareArrays?, hl, hr]
  · simp [compareArrays?, hl, hr, hr']

theorem compareArrays?_eq_none {op : CompareOp} (hl : ¬(l.isArrayLike ∧ r.isDefiniteScalar))
    (hr : ¬(r.isArrayLike ∧ l.isDefiniteScalar)) (hn : ∀ a b, l = array a → r = array b → False) :
    compareArrays? op l r = none := by
  rw [← Bool.and_eq_true] at hl hr
  unfold compareArrays?
  rw [if_neg hl, if_neg hr]
  split
  · exact (hn _ _ rfl rfl).elim
  · rfl

theorem mirrors_arrays (l r : Value) :
    Mirrors (fun op => .quiet (compareArrays? op l r))
      (fun op => .quiet (compareArrays? op r l)) := by
  by_cases hl : l.isArrayLike ∧ r.isDefiniteScalar
  · exact mirrors_array_scalar hl.1 hl.2
  by_cases hr : r.isArrayLike ∧ l.isDefiniteScalar
  · exact (mirrors_array_scalar hr.1 hr.2).symm
  by_cases harrays : ∃ a b, l = array a ∧ r = array b
  · obtain ⟨a, b, rfl, rfl⟩ := harrays
    exact mirrors_ids a b
  · simp only [compareArrays?_eq_none hl hr fun a b hl hr => harrays ⟨a, b, hl, hr⟩,
      compareArrays?_eq_none hr hl fun b a hr hl => harrays ⟨a, b, hl, hr⟩]
    exact .unknown (fun _ => rfl) fun _ => rfl

theorem compareObjects?_of_not_objects {op : CompareOp}
    (hn : ∀ a b c d, l = object a c → r = object b d → False) :
    compareObjects? op l r =
      if l.isDefiniteScalar || r.isDefiniteScalar then
        .warned none (.objectToIntegerBy "comparison")
      else .quiet none := by
  unfold compareObjects?
  split
  · exact (hn _ _ _ _ rfl rfl).elim
  · rfl

theorem mirrors_objects (l r : Value) :
    Mirrors (fun op => compareObjects? op l r) (fun op => compareObjects? op r l) := by
  by_cases hobjects : ∃ a b c d, l = object a c ∧ r = object b d
  · obtain ⟨a, b, c, d, rfl, rfl⟩ := hobjects
    exact mirrors_ids a b
  · simp only [compareObjects?_of_not_objects fun a b c d hl hr => hobjects ⟨a, b, c, d, hl, hr⟩,
      compareObjects?_of_not_objects fun b a d c hr hl => hobjects ⟨a, b, c, d, hl, hr⟩,
      Bool.or_comm r.isDefiniteScalar]
    split
    · exact .unknown (fun _ => rfl) fun _ => rfl
    · exact .unknown (fun _ => rfl) fun _ => rfl

-- Each rule treats both sides alike, and so do the conditions under which it is chosen.
theorem mirrors_compare? (store : Store) (l r : Value) :
    Mirrors (fun op => compare? store op l r) (fun op => compare? store op r l) := by
  by_cases htext : comparesAsText l r
  · unfold comparesAsText at htext
    split at htext
    · exact mirrors_texts "" _
    · exact mirrors_texts _ ""
    · exact .unknown (fun _ => rfl) fun _ => rfl
    · exact .unknown (fun _ => rfl) fun _ => rfl
    · cases htext
  · rw [Bool.not_eq_true] at htext
    have htext' : comparesAsText r l = false := by rwa [comparesAsText_comm]
    simp only [compare?_rules htext, compare?_rules htext', Bool.or_comm r.isBooleanLike,
      Bool.or_comm r.isArrayLike, Bool.or_comm r.isObjectLike]
    split
    · exact .spans (Span.ordered_ofTruth? _) (Span.ordered_ofTruth? _) (fun _ => rfl) fun _ => rfl
    · split
      · exact mirrors_arrays l r
      · split
        · exact mirrors_objects l r
        · exact mirrors_scalars l r

theorem compare?_mirrored (store : Store) (op : CompareOp) (l r : Value) :
    compare? store op.mirrored l r = compare? store op r l :=
  (mirrors_compare? store l r).mirrored op

theorem compare?_opposite (store : Store) (op : CompareOp) (l r : Value) :
    compare? store op.opposite l r =
      ⟨(compare? store op l r).result.map not, (compare? store op l r).warnings⟩ :=
  (mirrors_compare? store l r).opposite op

theorem same?_comm (l r : Value) : l.same? r = r.same? l := by
  unfold same?
  rw [Family.intersect_comm]
  split
  · rfl
  · split
    · rw [Double.numEq_comm]
    · simp only [eq_comm]
    · rfl
    · rfl
    · rfl
    · rfl
    · rw [Interval.isDisjoint_comm]
    · rw [Interval.isDisjoint_comm]
    · next hff haa hri hir hrf hfr hrr hrr' =>
      -- What falls under no rule in one order falls under none in the other.
      symm
      split
      · exact (hff _ _ rfl rfl).elim
      · exact (haa _ _ rfl rfl).elim
      · exact (hir _ _ rfl rfl).elim
      · exact (hri _ _ rfl rfl).elim
      · exact (hfr _ _ rfl rfl).elim
      · exact (hrf _ _ rfl rfl).elim
      · exact (hrr _ _ rfl rfl).elim
      · exact (hrr' _ _ rfl rfl).elim
      · simp only [Bool.and_comm r.isConcrete, eq_comm]

theorem comparesFloats_comm (l r : Value) : l.comparesFloats r = r.comparesFloats l :=
  Bool.and_comm _ _

end Value

namespace IdentityOp

theorem holds?_opposite (op : IdentityOp) (same : Option Bool) :
    op.opposite.holds? same = (op.holds? same).map not := by
  cases op with
  | identical => rfl
  | notIdentical => exact (CompareOp.map_not_map_not same).symm

end IdentityOp

namespace Eval

variable (options : Options) (state : State) {l r : Value}

theorem identity_comm (op : IdentityOp) (l r : Value) : identity op l r = identity op r l := by
  unfold identity
  rw [Value.comparesFloats_comm, Value.same?_comm]

theorem compare_mirrored (op : CompareOp) (l r : Value) :
    compare op.mirrored l r = compare op r l := by
  unfold compare
  simp only [Value.compare?_mirrored]

theorem run_binary_compare (op : CompareOp) (hl : l.isOperand) (hr : r.isOperand) :
    (binary l (.compare op) r).run options state =
      (compare op l.normalized r.normalized).run options state :=
  run_guarded options state (compare op _ _) (Value.isOperand_normalized hl)
    (Value.isOperand_normalized hr)

theorem run_binary_identity (op : IdentityOp) (hl : l.isOperand) (hr : r.isOperand) :
    (binary l (.identity op) r).run options state =
      (identity op l.normalized r.normalized).run options state :=
  run_guarded options state (identity op _ _) (Value.isOperand_normalized hl)
    (Value.isOperand_normalized hr)

theorem binary_mirrored {op : BinaryOp} (hop : op.isComparison) (hl : l.isOperand)
    (hr : r.isOperand) :
    (binary l op.mirrored r).run options state = (binary r op l).run options state := by
  cases op with
  | compare op =>
    show (binary l (.compare op.mirrored) r).run options state = _
    rw [run_binary_compare options state _ hl hr, run_binary_compare options state _ hr hl,
      compare_mirrored]
  | identity op =>
    show (binary l (.identity op) r).run options state = _
    rw [run_binary_identity options state _ hl hr, run_binary_identity options state _ hr hl,
      identity_comm]
  | _ => cases hop

theorem run_compare_noted (op : CompareOp) (l r : Value) :
    (compare op l r).run options state =
      (.ok (.ofTruth? (l.compare? state.store op r).result),
        { state with
          warnings := state.warnings ++ (l.compare? state.store op r).warnings }) := by
  unfold compare
  rw [run_bind_ok options state (run_getStore options state),
    run_bind_ok options state (run_note options state _)]
  rfl

-- What is reported depends on the operands alone.
theorem exists_run_identities (l r : Value) :
    ∃ next, ∀ op, (identity op l r).run options state =
      (.ok (.ofTruth? (op.holds? (l.same? r))), next) := by
  unfold identity
  by_cases hwarn : options.warnFloatIdentity && l.comparesFloats r
  · refine ⟨{ state with warnings := state.warnings ++ [.floatIdentity] }, fun op => ?_⟩
    rw [run_bind_ok options state (run_read options state), if_pos hwarn]
    rfl
  · refine ⟨state, fun op => ?_⟩
    rw [run_bind_ok options state (run_read options state), if_neg hwarn]
    rfl

theorem binary_opposite {op : BinaryOp} (hop : op.isComparison) (hl : l.isOperand)
    (hr : r.isOperand) :
    ∃ truth next, (binary l op r).run options state = (.ok (.ofTruth? truth), next) ∧
      (binary l op.opposite r).run options state = (.ok (.ofTruth? (truth.map not)), next) := by
  cases op with
  | compare op =>
    have hrun := run_binary_compare options state op hl hr
    rw [run_compare_noted] at hrun
    refine ⟨_, _, hrun, ?_⟩
    show (binary l (.compare op.opposite) r).run options state = _
    rw [run_binary_compare options state _ hl hr, run_compare_noted, Value.compare?_opposite]
  | identity op =>
    obtain ⟨next, hrun⟩ := exists_run_identities options state l.normalized r.normalized
    refine ⟨op.holds? (l.normalized.same? r.normalized), next, ?_, ?_⟩
    · rw [run_binary_identity options state op hl hr, hrun]
    · show (binary l (.identity op.opposite) r).run options state = _
      rw [run_binary_identity options state _ hl hr, hrun, IdentityOp.holds?_opposite]
  | _ => cases hop

-- A comparison is the mirrored one of the exchanged operands, and the opposite one negates what it
-- answers. The warnings are the same.
theorem comparisons_consistent {op : BinaryOp} (hop : op.isComparison) (hl : l.isOperand)
    (hr : r.isOperand) :
    (binary l op.mirrored r).run options state = (binary r op l).run options state ∧
      ∃ truth next, (binary l op r).run options state = (.ok (.ofTruth? truth), next) ∧
        (binary l op.opposite r).run options state = (.ok (.ofTruth? (truth.map not)), next) :=
  ⟨binary_mirrored options state hop hl hr, binary_opposite options state hop hl hr⟩

-- An object beside a number is reported from both sides, and NaN is not the same as itself.
theorem comparisons_consistent_reported :
    BinaryOp.isComparison (.compare .less) ∧ (Value.object 0 "A").isOperand ∧
      (Value.int 5).isOperand ∧
      (binary (.object 0 "A") (.compare .less) (.int 5)).run {} .initial =
        (.ok (.any .boolean), ⟨.empty, [.objectToIntegerBy "comparison"]⟩) ∧
      (binary (.int 5) (.compare .greater) (.object 0 "A")).run {} .initial =
        (.ok (.any .boolean), ⟨.empty, [.objectToIntegerBy "comparison"]⟩) ∧
      BinaryOp.isComparison (.identity .identical) ∧ (Value.float .nan).isOperand ∧
      (binary (.float .nan) (.identity .identical) (.float .nan)).run {} .initial =
        (.ok (.bool false), ⟨.empty, [.floatIdentity]⟩) ∧
      (binary (.float .nan) (.identity .notIdentical) (.float .nan)).run {} .initial =
        (.ok (.bool true), ⟨.empty, [.floatIdentity]⟩) := by
  have hless : (binary (.object 0 "A") (.compare .less) (.int 5)).run {} .initial =
      (.ok (.any .boolean), ⟨.empty, [.objectToIntegerBy "comparison"]⟩) := rfl
  have hsame : (binary (.float .nan) (.identity .identical) (.float .nan)).run {} .initial =
      (.ok (.bool false), ⟨.empty, [.floatIdentity]⟩) := rfl
  have hcompare : BinaryOp.isComparison (.compare .less) := rfl
  have hidentity : BinaryOp.isComparison (.identity .identical) := rfl
  have hobject : (Value.object 0 "A").isOperand := rfl
  have hint : (Value.int 5).isOperand := rfl
  have hnan : (Value.float .nan).isOperand := rfl
  obtain ⟨hmirrored, -⟩ := comparisons_consistent {} .initial hcompare hint hobject
  obtain ⟨-, truth, next, hidentical, hopposite⟩ :=
    comparisons_consistent {} .initial hidentity hnan hnan
  obtain ⟨hfalse, rfl⟩ := Prod.mk.inj (hidentical.symm.trans hsame)
  rw [Value.ofTruth?_eq_bool.mp (Except.ok.inj hfalse)] at hopposite
  exact ⟨hcompare, hobject, hint, hless, hmirrored.trans hless, hidentity, hnan, hsame, hopposite⟩

end Eval

end AbsEval
