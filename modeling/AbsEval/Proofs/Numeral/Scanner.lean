import AbsEval.Proofs.Numeral.Value

namespace AbsEval

open Grammar (DenotesInteger digitValue positional)

-- What is left of a hexadecimal number where only decimal ones are read is the zero in front.
theorem Literal.split?_zero_mark {x : Char} (hx : x = 'x' ∨ x = 'X') (cs : List Char) :
    Literal.split? ('0' :: x :: cs) = some (⟨none, ['0'], none, none⟩, x :: cs) := by
  rcases hx with rfl | rfl <;> rfl

namespace Grammar

variable {allowHex : Bool} {cs v w : List Char} {k : Int}

theorem mem_numeral :
    w ∈ (numeral allowHex).matches' ↔
      (allowHex ∧ w ∈ hexadecimal.matches') ∨ w ∈ decimal.matches' := by
  cases allowHex with
  | false => simp [numeral]
  | true => simp only [numeral, if_true, RegularExpression.matches'_add, Language.mem_add, true_and]

theorem length_le_one_of_mem_decimal {x : Char} (hx : x = 'x' ∨ x = 'X')
    (hv : v ∈ decimal.matches') (h : v <+: '0' :: x :: cs) : v.length ≤ 1 :=
  (Literal.longestPrefix_of_split? (Literal.split?_zero_mark hx cs)).longest v hv h

theorem not_mem_decimal_of_mem_hexadecimal (h : w ∈ hexadecimal.matches') :
    w ∉ decimal.matches' := by
  intro hw
  obtain ⟨x, ds, hx, -, -, rfl⟩ := mem_hexadecimal.mp h
  have := length_le_one_of_mem_decimal hx hw (List.prefix_refl _)
  simp at this

theorem mem_decimal_of_mem_integer (h : w ∈ integer.matches') : w ∈ decimal.matches' := by
  obtain ⟨s, ds, hne, hds, rfl⟩ := mem_integer.mp h
  refine mem_decimal.mpr ⟨⟨s, ds, none, none⟩, ⟨hds, by simp, by simp, ?_⟩, ?_⟩
  · simpa [Literal.digits] using hne
  · exact Literal.spelling_of_isInteger rfl

theorem DenotesInteger.unique {j : Int} (hj : DenotesInteger w j) (hk : DenotesInteger w k) :
    j = k := by
  cases hj with
  | decimal hw =>
    cases hk with
    | decimal => rfl
    | hexadecimal hw' =>
      exact absurd (mem_decimal_of_mem_integer hw) (not_mem_decimal_of_mem_hexadecimal hw')
  | hexadecimal hw =>
    cases hk with
    | decimal hw' =>
      exact absurd (mem_decimal_of_mem_integer hw') (not_mem_decimal_of_mem_hexadecimal hw)
    | hexadecimal => rfl

theorem exists_denotesInteger_iff :
    (∃ k, DenotesInteger w k) ↔ w ∈ integer.matches' ∨ w ∈ hexadecimal.matches' := by
  constructor
  · rintro ⟨k, hdecimal | hhex⟩
    · exact .inl hdecimal
    · exact .inr hhex
  · rintro (hdecimal | hhex)
    · exact ⟨_, .decimal hdecimal⟩
    · exact ⟨_, .hexadecimal hhex⟩

end Grammar

namespace Numeral

section Hexadecimal

variable {c : Char}

theorem hexDigit?_of_mem (h : c ∈ Grammar.hexDigits) : hexDigit? c = some (digitValue c) :=
  Grammar.forall_of_all (p := fun c => hexDigit? c = some (digitValue c)) (by decide) c h

theorem isSome_hexDigit? (c : Char) : (hexDigit? c).isSome = decide (c ∈ Grammar.hexDigits) := by
  by_cases hc : c ∈ Grammar.hexDigits
  · rw [hexDigit?_of_mem hc, decide_eq_true hc]
    rfl
  · have hdigit : ¬c.isDigit := fun h =>
      hc (List.mem_append_left _ (Grammar.mem_digits_iff.mpr h))
    have hletter : ∀ {low high : Char}, (∀ n ≤ high.toNat, low.toNat ≤ n →
        Char.ofNat n ∈ Grammar.hexDigits) → ¬(low ≤ c && c ≤ high) := fun hall h => by
      obtain ⟨hlow, hhigh⟩ := (Bool.and_eq_true _ _).mp h
      exact hc (Grammar.mem_of_between hall (of_decide_eq_true hlow) (of_decide_eq_true hhigh))
    rw [decide_eq_false hc, hexDigit?, if_neg hdigit, if_neg (hletter (by decide)),
      if_neg (hletter (by decide))]
    rfl

theorem mem_hexDigits_of_mem_takeWhile {cs : List Char}
    (h : c ∈ cs.takeWhile (· ∈ Grammar.hexDigits)) : c ∈ Grammar.hexDigits :=
  of_decide_eq_true (List.all_eq_true.mp List.all_takeWhile c h)

theorem hexDigits_eq (cs : List Char) :
    hexDigits cs = (cs.takeWhile (· ∈ Grammar.hexDigits)).map digitValue := by
  unfold hexDigits
  simp only [isSome_hexDigit?]
  rw [List.filterMap_congr fun c hc => hexDigit?_of_mem (mem_hexDigits_of_mem_takeWhile hc)]
  exact congrFun List.filterMap_eq_map' _

-- An integer as it is read: kept if it has 32 bits.
inductive OfInteger (hex : Bool) (k : Int) : Numeral → Prop where
  | kept {n : Int32} (h : n.toInt = k) : OfInteger hex k (.int n hex)
  | beyond {x : Double} (h : k < -2 ^ 31 ∨ 2 ^ 31 ≤ k) : OfInteger hex k (.float x true hex)

theorem le_foldl (ds : List Nat) (value : Nat) :
    value ≤ ds.foldl (fun n d => n * 16 + d) value := by
  induction ds generalizing value with
  | nil => exact Nat.le_refl _
  | cons d ds ih => exact Nat.le_trans (by omega) (ih (value * 16 + d))

theorem ofInteger_hexFrom (ds : List Nat) {value : Nat} (h : value < 2 ^ 31) :
    OfInteger true (ds.foldl (fun n d => n * 16 + d) value : Nat) (hexFrom value ds) := by
  induction ds generalizing value with
  | nil =>
    obtain ⟨n, hn⟩ := exists_int32? (n := value) (by omega) (by omega)
    rw [hexFrom, hn]
    exact .kept (toInt_of_int32?_eq_some hn)
  | cons d ds ih =>
    rw [hexFrom, List.foldl_cons]
    split
    · next hlt => exact ih hlt
    · next hge =>
      have := le_foldl ds (value * 16 + d)
      exact .beyond (.inr (by omega))

theorem ofInteger_hexDigits (cs : List Char) :
    OfInteger true (positional 16 (cs.takeWhile (· ∈ Grammar.hexDigits)))
      (hexFrom 0 (hexDigits cs)) := by
  have hread := ofInteger_hexFrom (hexDigits cs) (by decide : 0 < 2 ^ 31)
  rw [hexDigits_eq] at hread ⊢
  rwa [List.foldl_map, Grammar.foldl_eq_positional (fun n c _ => rfl), Nat.zero_mul,
    Nat.zero_add] at hread

-- A hexadecimal number at the beginning goes on as far as the hexadecimal digits do.
theorem exists_of_hexadecimal_begins {cs v : List Char} (hv : v ∈ Grammar.hexadecimal.matches')
    (h : v <+: cs) : ∃ x rest, (x = 'x' ∨ x = 'X') ∧ cs = '0' :: x :: rest ∧
      hexDigits rest ≠ [] ∧ v.length ≤ (hexDigits rest).length + 2 := by
  obtain ⟨x, ds, hx, hne, hds, rfl⟩ := Grammar.mem_hexadecimal.mp hv
  obtain ⟨tail, rfl⟩ := h
  refine ⟨x, ds ++ tail, hx, rfl, ?_⟩
  rw [hexDigits_eq, List.takeWhile_append_of_pos (fun c hc => decide_eq_true (hds c hc))]
  exact ⟨by simp [hne], by simp⟩

theorem takeWhile_mem_hexadecimal {x : Char} {rest : List Char} (hx : x = 'x' ∨ x = 'X')
    (hne : hexDigits rest ≠ []) : '0' :: x :: rest.takeWhile (· ∈ Grammar.hexDigits) ∈
      Grammar.hexadecimal.matches' := by
  rw [hexDigits_eq, Ne, List.map_eq_nil_iff] at hne
  exact Grammar.mem_hexadecimal.mpr
    ⟨x, _, hx, hne, fun _ => mem_hexDigits_of_mem_takeWhile, rfl⟩

theorem longestPrefix_hexadecimal {x : Char} {rest : List Char} (hx : x = 'x' ∨ x = 'X')
    (hne : hexDigits rest ≠ []) : LongestPrefix (Grammar.numeral true).matches' ('0' :: x :: rest)
      ('0' :: x :: rest.takeWhile (· ∈ Grammar.hexDigits)) := by
  refine ⟨Grammar.mem_numeral.mpr (.inl ⟨rfl, takeWhile_mem_hexadecimal hx hne⟩), ?_, ?_⟩
  · exact (List.prefix_append_right_inj ['0', x]).mpr ⟨_, List.takeWhile_append_dropWhile⟩
  · intro v hv hbegins
    rcases Grammar.mem_numeral.mp hv with ⟨-, hv⟩ | hv
    · obtain ⟨y, rest', -, heq, -, hle⟩ := exists_of_hexadecimal_begins hv hbegins
      cases heq
      rwa [hexDigits_eq, List.length_map] at hle
    · exact (Grammar.length_le_one_of_mem_decimal hx hv hbegins).trans (by simp)

end Hexadecimal

variable {text : String} {cs w : List Char} {n : Numeral}

theorem ofHex_cases {x : Char} (hx : x = 'x' ∨ x = 'X') (rest : List Char) :
    (hexDigits rest ≠ [] ∧ ofHex rest = hexFrom 0 (hexDigits rest)) ∨
      ((∀ v ∈ Grammar.hexadecimal.matches', ¬v <+: '0' :: x :: rest) ∧
        ofHex rest = ofDecimal ('0' :: x :: rest)) := by
  unfold ofHex
  by_cases hempty : hexDigits rest = []
  · refine .inr ⟨fun v hv hbegins => ?_, ?_⟩
    · obtain ⟨y, rest', -, heq, hne, -⟩ := exists_of_hexadecimal_begins hv hbegins
      cases heq
      exact hne hempty
    · rw [hempty, ofDecimal, Literal.split?_zero_mark hx]
      show int 0 false = ofLiteral ⟨.none, ['0'], .none, .none⟩
      decide
  · rw [if_neg (by simpa using hempty)]
    exact .inl ⟨hempty, rfl⟩

-- Either a hexadecimal number is read, or there is none at the beginning of the text.
theorem ofText_cases (allowHex : Bool) (hcs : text.toList.dropWhile Text.isBlank = cs) :
    (∃ x rest, allowHex ∧ (x = 'x' ∨ x = 'X') ∧ cs = '0' :: x :: rest ∧ hexDigits rest ≠ [] ∧
        ofText allowHex text = hexFrom 0 (hexDigits rest)) ∨
      ((allowHex → ∀ v ∈ Grammar.hexadecimal.matches', ¬v <+: cs) ∧
        ofText allowHex text = ofDecimal cs) := by
  unfold ofText
  dsimp only
  rw [hcs]
  clear hcs
  split
  · next c rest =>
    rcases ofHex_cases (.inl rfl) (c :: rest) with ⟨hne, hread⟩ | ⟨hnone, hread⟩
    · exact .inl ⟨'x', c :: rest, rfl, .inl rfl, rfl, hne, hread⟩
    · exact .inr ⟨fun _ => hnone, hread⟩
  · next c rest =>
    rcases ofHex_cases (.inr rfl) (c :: rest) with ⟨hne, hread⟩ | ⟨hnone, hread⟩
    · exact .inl ⟨'X', c :: rest, rfl, .inr rfl, rfl, hne, hread⟩
    · exact .inr ⟨fun _ => hnone, hread⟩
  · next hlower hupper =>
    refine .inr ⟨fun hallow v hv hbegins => ?_, rfl⟩
    obtain ⟨x, rest, hx, rfl, hne, -⟩ := exists_of_hexadecimal_begins hv hbegins
    cases rest with
    | nil => exact hne rfl
    | cons c rest =>
      rcases hx with rfl | rfl
      · exact hlower c rest hallow rfl
      · exact hupper c rest hallow rfl

-- How a text is read, given which words are the longest number at its beginning. At most one is.
structure Reads (longest : List Char → Prop) (n : Numeral) : Prop where
  failure : (n.isExact = false ∧ n.isInteger = true ∧ n.toInt32 = 0) ↔ ∀ w, ¬longest w
  integer : ∀ k, (n.isExact = true ∧ n.isInteger = true ∧ n.toInt32.toInt = k) ↔
    ∃ w, longest w ∧ DenotesInteger w k ∧ -2 ^ 31 ≤ k ∧ k < 2 ^ 31
  beyond : (n.isExact = false ∧ n.isInteger = false) ↔
    ∃ w, longest w ∧ ∃ k, DenotesInteger w k ∧ (k < -2 ^ 31 ∨ 2 ^ 31 ≤ k)
  real : (n.isExact = true ∧ n.isInteger = false) ↔
    ∃ w, longest w ∧ w ∉ Grammar.integer.matches' ∧ w ∉ Grammar.hexadecimal.matches'
  rounded : ∀ w, longest w → w ∉ Grammar.integer.matches' → w ∉ Grammar.hexadecimal.matches' →
    Double.IsCorrectlyRounded (w.head? = some '-') (Grammar.magnitude w) n.toDouble
  hexadecimal : n.isHex = true ↔ ∃ w, longest w ∧ w ∈ Grammar.hexadecimal.matches'

theorem reads_none : Reads (fun _ => False) none := by
  constructor <;> simp [isExact, isInteger, isHex, toInt32]

theorem OfInteger.reads {k : Int} {hex : Bool} (h : OfInteger hex k n) (hk : DenotesInteger w k)
    (hhex : hex ↔ w ∈ Grammar.hexadecimal.matches') : Reads (· = w) n := by
  have hmem := Grammar.exists_denotesInteger_iff.mp ⟨k, hk⟩
  constructor
  case failure => cases h <;> simp [isExact, isInteger]
  case integer =>
    intro j
    constructor
    · rintro ⟨-, hinteger, rfl⟩
      cases h with
      | @kept m hm =>
        subst hm
        exact ⟨w, rfl, hk, m.le_toInt, m.toInt_lt⟩
      | beyond => cases hinteger
    · rintro ⟨_, rfl, hj, hlow, hhigh⟩
      obtain rfl := hk.unique hj
      cases h with
      | kept hm => exact ⟨rfl, rfl, hm⟩
      | beyond hrange => omega
  case beyond =>
    constructor
    · rintro ⟨hexact, -⟩
      cases h with
      | kept => cases hexact
      | beyond hrange => exact ⟨w, rfl, k, hk, hrange⟩
    · rintro ⟨_, rfl, j, hj, hrange⟩
      obtain rfl := hk.unique hj
      cases h with
      | @kept m hm =>
        have hlow := m.le_toInt
        have hhigh := m.toInt_lt
        omega
      | beyond => exact ⟨rfl, rfl⟩
  case real =>
    constructor
    · rintro ⟨hexact, hinteger⟩
      cases h with
      | kept => cases hinteger
      | beyond => cases hexact
    · rintro ⟨_, rfl, hnot⟩
      exact absurd hmem (not_or.mpr hnot)
  case rounded =>
    rintro _ rfl hinteger hhexadecimal
    exact absurd hmem (not_or.mpr ⟨hinteger, hhexadecimal⟩)
  case hexadecimal => cases h <;> simpa [isHex] using hhex

theorem reads_real {x : Double} (hinteger : w ∉ Grammar.integer.matches')
    (hhex : w ∉ Grammar.hexadecimal.matches')
    (hx : Double.IsCorrectlyRounded (w.head? = some '-') (Grammar.magnitude w) x) :
    Reads (· = w) (.float x false false) := by
  have hnone : ∀ k, ¬DenotesInteger w k := fun k hk =>
    not_or.mpr ⟨hinteger, hhex⟩ (Grammar.exists_denotesInteger_iff.mp ⟨k, hk⟩)
  constructor
  case rounded =>
    rintro _ rfl - -
    exact hx
  all_goals simp [isExact, isInteger, isHex, hinteger, hhex, hnone]

theorem reads_ofLiteral {l : Literal} (h : l.WellFormed) :
    Reads (· = l.spelling) (ofLiteral l) := by
  have hhex : l.spelling ∉ Grammar.hexadecimal.matches' := fun hmem =>
    Grammar.not_mem_decimal_of_mem_hexadecimal hmem (Grammar.mem_decimal.mpr ⟨l, h, rfl⟩)
  unfold ofLiteral
  by_cases hinteger : l.isInteger
  · rw [if_pos hinteger]
    have hdenotes := DenotesInteger.decimal ((Literal.spelling_mem_integer_iff h).mpr hinteger)
    rw [Literal.signedValue_spelling h hinteger] at hdenotes
    have hread : OfInteger false l.integer
        ((int32? l.integer).elim (float l.double true false) (int · false)) := by
      cases hword : int32? l.integer with
      | none => exact .beyond (int32?_eq_none_iff.mp hword)
      | some m => exact .kept (toInt_of_int32?_eq_some hword)
    exact hread.reads hdenotes (by simp [hhex])
  · rw [if_neg hinteger]
    refine reads_real (mt (Literal.spelling_mem_integer_iff h).mp hinteger) hhex ?_
    rw [Literal.head?_spelling_eq_minus h, Literal.magnitude_spelling h]
    exact Double.isCorrectlyRounded_ofDecimal l.isNegative l.decimal

-- What is read of a text is the longest number at its beginning, after blanks.
theorem ofText_reads (allowHex : Bool) (text : String) :
    Reads (LongestPrefix (Grammar.numeral allowHex).matches' (text.toList.dropWhile Text.isBlank))
      (ofText allowHex text) := by
  generalize hcs : text.toList.dropWhile Text.isBlank = cs
  rcases ofText_cases allowHex hcs with ⟨x, rest, rfl, hx, rfl, hne, hread⟩ | ⟨hnone, hread⟩
  · rw [hread, (longestPrefix_hexadecimal hx hne).eq_singleton]
    have hmem := takeWhile_mem_hexadecimal hx hne
    exact (ofInteger_hexDigits rest).reads (.hexadecimal hmem) (by simp [hmem])
  · have hdecimal : ∀ {v}, v ∈ (Grammar.numeral allowHex).matches' → v <+: cs →
        v ∈ Grammar.decimal.matches' := by
      intro v hv hbegins
      rcases Grammar.mem_numeral.mp hv with ⟨hallow, hv⟩ | hv
      · exact absurd hbegins (hnone hallow v hv)
      · exact hv
    rw [hread, ofDecimal]
    cases hsplit : Literal.split? cs with
    | none =>
      have hfalse : LongestPrefix (Grammar.numeral allowHex).matches' cs = fun _ => False := by
        funext w
        refine eq_false fun hw => ?_
        exact Literal.not_prefix_of_split?_eq_none hsplit (hdecimal hw.mem hw.begins) hw.begins
      rw [hfalse]
      exact reads_none
    | some found =>
      obtain ⟨l, rest⟩ := found
      obtain ⟨hmem, hbegins, hlongest⟩ := Literal.longestPrefix_of_split? hsplit
      have hw : LongestPrefix (Grammar.numeral allowHex).matches' cs l.spelling :=
        ⟨Grammar.mem_numeral.mpr (.inr hmem), hbegins, fun v hv hv' =>
          hlongest v (hdecimal hv hv') hv'⟩
      rw [hw.eq_singleton]
      exact reads_ofLiteral (Literal.wellFormed_of_split? hsplit)

end Numeral

end AbsEval
