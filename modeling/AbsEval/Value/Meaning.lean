import AbsEval.Value.Basic

namespace AbsEval.Value

-- The concrete values that a value stands for: a concrete value for itself, an interval for the
-- numbers between its bounds, a kind for everything in its families. A marker stands for none.
def Describes (v c : Value) : Prop :=
  match v with
  | intRange range => ∃ n, c = int n ∧ range.contains n
  | longRange range => ∃ n, c = long n ∧ range.contains n
  | floatRange range => ∃ x, c = float x ∧ range.contains x
  | any kind => c.isConcrete ∧ c.families ⊆ kind.families
  | marker _ => False
  | v => c = v

-- `v` stands for everything that `w` stands for.
def Covers (v w : Value) : Prop :=
  ∀ c, w.Describes c → v.Describes c

theorem isConcrete_of_describes {v c : Value} (h : v.Describes c) : c.isConcrete := by
  cases v <;> simp only [Describes] at h <;> try (subst h; rfl)
  case any => exact h.1
  all_goals
    obtain ⟨n, rfl, -⟩ := h
    rfl

theorem describes_self {v : Value} (h : v.isConcrete) : v.Describes v := by
  cases v <;> simp_all [Describes, isConcrete]

-- A value never stands for one outside its families.
theorem families_subset_of_describes {v c : Value} (h : v.Describes c) :
    c.families ⊆ v.families := by
  cases v <;> simp only [Describes] at h <;> try (subst h; exact List.Subset.refl _)
  case any => exact h.2
  all_goals
    obtain ⟨n, rfl, -⟩ := h
    exact List.Subset.refl _

theorem describes_any {kind : Kind} {c : Value} (h : c.isConcrete)
    (hk : c.families ⊆ kind.families) : (any kind).Describes c :=
  ⟨h, hk⟩

theorem covers_refl (v : Value) : v.Covers v :=
  fun _ h => h

theorem covers_trans {u v w : Value} (h : u.Covers v) (k : v.Covers w) : u.Covers w :=
  fun c hc => h c (k c hc)

-- Nothing is known of a value of the widest kind.
theorem any_value_covers (v : Value) : (any .value).Covers v :=
  fun _ h => describes_any (isConcrete_of_describes h) fun family _ => Family.mem_all family

end AbsEval.Value
