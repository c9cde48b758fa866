import AbsEval.Proofs.Conversion.Negation

namespace AbsEval

theorem Double.toInt32?_congr {x y : Double} {n : Int32} (h : y.position? = x.position?)
    (hx : x.toInt32? = some n) : y.toInt32? = some n := by
  obtain ⟨i, hi, hn⟩ := Option.bind_eq_some_iff.mp hx
  obtain ⟨a, ha, hlimit, rfl⟩ := exists_position?_of_truncate? hi
  exact Option.bind_eq_some_iff.mpr ⟨_, truncate?_of_position? (h.trans ha) hlimit, hn⟩

namespace Value

variable {store : Store} {v c : Value} {n : Int32}

-- Only a value that is known has a single integer, and it is that of every value stood for.
theorem integer?_of_admits (h : v.Admits c) (hv : v.integer? store = some n) :
    c.integer? store = some n := by
  cases v with
  | float x =>
    obtain ⟨y, rfl, hy⟩ := float_of_admits h
    exact Double.toInt32?_congr hy hv
  | intRange range | longRange range | floatRange range | any kind | marker m => cases hv
  | null | bool b | int i | long i | str text | array id | object id className | resource id =>
    rw [eq_of_admits rfl (by simp [families]) h]
    exact hv

theorem families_eq_string_of_admits (h : v.Admits c) (hv : v.families = [.string]) :
    c.families = [.string] := by
  have hsubset := families_subset_of_admits h
  have hconcrete := isConcrete_of_admits h
  rw [hv] at hsubset
  cases c with
  | str text => rfl
  | intRange range | longRange range | floatRange range | any kind | marker m => cases hconcrete
  | _ => simp [families] at hsubset

theorem families_eq_string_iff (hc : c.isConcrete) :
    c.families = [.string] ↔ ∃ text, c = str text := by
  cases c with
  | str text => exact iff_of_true rfl ⟨text, rfl⟩
  | intRange range | longRange range | floatRange range | any kind | marker m => cases hc
  | _ => exact iff_of_false (by simp [families]) (by simp)

end Value

namespace BitOp

variable {op : BitOp} {store : Store} {left right l r : Value}

-- The operators that combine two texts character by character.
def isTextual : BitOp → Bool
  | and | or | xor => true
  | shiftLeft | shiftRight => false

theorem combinesTexts_iff : op.combinesTexts left right ↔
    op.isTextual ∧ left.families = [.string] ∧ right.families = [.string] := by
  cases op <;> simp [combinesTexts, isTextual]

theorem result_operand? (v : Value) : (operand? store v).result = v.integer? store := by
  cases v with
  | any kind => cases kind <;> rfl
  | _ => rfl

-- Integers that are known are combined. Of any other operands only the type of the result is known.
def onInts? (op : BitOp) : Option Int32 → Option Int32 → Value
  | some a, some b => .int (op.onInts a b)
  | _, _ => .any .integer

theorem result_apply_texts (h : op.combinesTexts left right) :
    (op.apply store left right).result = .any .string := by
  unfold apply
  rw [if_pos h]
  rfl

theorem result_apply_ints (h : ¬op.combinesTexts left right) :
    (op.apply store left right).result =
      op.onInts? (left.integer? store) (right.integer? store) := by
  unfold apply
  rw [if_neg h]
  dsimp only
  rw [result_operand?, result_operand?]
  cases left.integer? store <;> cases right.integer? store <;> rfl

theorem families_onInts? (a b : Option Int32) : (op.onInts? a b).families = [.integer] := by
  cases a <;> cases b <;> rfl

theorem onInts?_covers {a b a' b' : Option Int32} (ha : ∀ n, a = some n → a' = some n)
    (hb : ∀ n, b = some n → b' = some n) : (op.onInts? a b).Covers (op.onInts? a' b') := by
  cases a with
  | none => exact Value.any_covers (families_onInts? a' b')
  | some m =>
    cases b with
    | none => exact Value.any_covers (families_onInts? a' b')
    | some n =>
      rw [ha m rfl, hb n rfl]
      exact Value.covers_refl _

-- Two texts among the members of operands that may be something else are combined to a text, which
-- the result of these operands leaves out.
theorem apply_covers_iff (hl : left.Admits l) (hr : right.Admits r) :
    (op.apply store left right).result.Covers (op.apply store l r).result ↔
      (op.combinesTexts l r → op.combinesTexts left right) := by
  by_cases htexts : op.combinesTexts left right
  · obtain ⟨hop, hleft, hright⟩ := combinesTexts_iff.mp htexts
    have hmembers : op.combinesTexts l r := combinesTexts_iff.mpr ⟨hop,
      Value.families_eq_string_of_admits hl hleft, Value.families_eq_string_of_admits hr hright⟩
    rw [result_apply_texts htexts, result_apply_texts hmembers]
    exact iff_of_true (Value.covers_refl _) fun _ => htexts
  · rw [result_apply_ints htexts]
    by_cases hmembers : op.combinesTexts l r
    · rw [result_apply_texts hmembers]
      refine iff_of_false (fun hcovers => ?_) fun h => htexts (h hmembers)
      have hfamilies := Value.families_subset_of_describes
        (hcovers (.str "") (Value.describes_any rfl (List.Subset.refl _)))
      rw [families_onInts?] at hfamilies
      simp [Value.families] at hfamilies
    · rw [result_apply_ints hmembers]
      exact iff_of_true (onInts?_covers (fun _ => Value.integer?_of_admits hl)
        fun _ => Value.integer?_of_admits hr) fun h => absurd h hmembers

end BitOp

namespace Eval

variable (options : Options) (state : State) (op : BitOp) {left right l r : Value}

theorem run_bitwise (hl : left.isOperand) (hr : right.isOperand) :
    ((binary left (.bitwise op) right).run options state).1 =
      .ok (op.apply state.store left.normalized right.normalized).result := by
  change ((guarded left.normalized right.normalized
    (getStore >>= fun store => note (op.apply store _ _))).run options state).1 = _
  rw [run_guarded options state _ (Value.isOperand_normalized hl) (Value.isOperand_normalized hr)]
  rfl

-- What a bitwise operator is found to give covers what it gives for all members of the operands,
-- but for two texts that it combines where an operand may be more than a text.
theorem bitwise_covers_iff (hl : left.isOperand) (hr : right.isOperand) (hleft : left.Describes l)
    (hright : right.Describes r) (hlong : l.isLongLike = false) (hlong' : r.isLongLike = false) :
    ∃ v w, ((binary left (.bitwise op) right).run options state).1 = .ok v ∧
      ((binary l (.bitwise op) r).run options state).1 = .ok w ∧
      (v.Covers w ↔ (op.isTextual → (∃ text, l = .str text) → (∃ text, r = .str text) →
        left.families = [.string] ∧ right.families = [.string])) := by
  have hlo := isOperand_of_describes hleft (by simp [hlong])
  have hro := isOperand_of_describes hright (by simp [hlong'])
  have hlc := Value.isConcrete_of_describes hleft
  have hrc := Value.isConcrete_of_describes hright
  refine ⟨_, _, run_bitwise options state op hl hr, run_bitwise options state op hlo hro, ?_⟩
  rw [Value.normalized_of_isConcrete hlc, Value.normalized_of_isConcrete hrc,
    BitOp.apply_covers_iff (Value.admits_normalized hleft) (Value.admits_normalized hright),
    BitOp.combinesTexts_iff, BitOp.combinesTexts_iff, Value.families_normalized,
    Value.families_normalized, Value.families_eq_string_iff hlc, Value.families_eq_string_iff hrc]
  constructor
  · intro h hop htext htext'
    exact (h ⟨hop, htext, htext'⟩).2
  · rintro h ⟨hop, htext, htext'⟩
    exact ⟨hop, h hop htext htext'⟩

-- Texts that are shifted count as integers, and of two unknown texts the combination is a text.
theorem bitwise_covers_texts :
    (Value.any .value).Describes (.str "3") ∧ (Value.any .string).Describes (.str "2") ∧
      ((binary (.str "3") (.bitwise .shiftLeft) (.str "2")).run {} .initial).1 = .ok (.int 12) ∧
      (∃ v w, ((binary (.any .value) (.bitwise .shiftLeft) (.any .string)).run {} .initial).1 =
          .ok v ∧
        ((binary (.str "3") (.bitwise .shiftLeft) (.str "2")).run {} .initial).1 = .ok w ∧
        v.Covers w) ∧
      ∃ v w, ((binary (.any .string) (.bitwise .xor) (.any .string)).run {} .initial).1 = .ok v ∧
        ((binary (.str "3") (.bitwise .xor) (.str "2")).run {} .initial).1 = .ok w ∧
        v.Covers w := by
  have hvalue : (Value.any .value).Describes (.str "3") := Value.describes_any rfl (by decide)
  have htext : (Value.any .string).Describes (.str "3") := Value.describes_any rfl (by decide)
  have htext' : (Value.any .string).Describes (.str "2") := Value.describes_any rfl (by decide)
  obtain ⟨v, w, hv, hw, hiff⟩ :=
    bitwise_covers_iff {} .initial .shiftLeft rfl rfl hvalue htext' rfl rfl
  obtain ⟨v', w', hv', hw', hiff'⟩ :=
    bitwise_covers_iff {} .initial .xor rfl rfl htext htext' rfl rfl
  refine ⟨hvalue, htext', run_bitwise {} .initial .shiftLeft rfl rfl,
    ⟨v, w, hv, hw, hiff.mpr ?_⟩, v', w', hv', hw', hiff'.mpr fun _ _ _ => ⟨rfl, rfl⟩⟩
  intro h
  cases h

-- An unknown value beside a text is taken for no text.
theorem bitwise_misses_text :
    (Value.any .value).Describes (.str "a") ∧
      ((binary (.any .value) (.bitwise .and) (.str "b")).run {} .initial).1 =
        .ok (.any .integer) ∧
      ((binary (.str "a") (.bitwise .and) (.str "b")).run {} .initial).1 = .ok (.any .string) ∧
      ¬(Value.any .integer).Covers (.any .string) := by
  refine ⟨Value.describes_any rfl (by decide), run_bitwise {} .initial .and rfl rfl,
    run_bitwise {} .initial .and rfl rfl, ?_⟩
  intro h
  have htext := h (.str "") (Value.describes_any rfl (by decide))
  exact absurd htext.2 (by decide)

end Eval

end AbsEval
