import DriverQueries.IntegerTypes

/-!
Comparisons that are meant to guard against the overflow of a sum.

A sum of two unsigned values that wraps around is less than either of them, so that a comparison of
the sum with one of its operands can guard against that. The query reports the comparisons of sums
of small operands. It is shown that such a comparison is one of exact sums, and which guards find
the overflow.
-/

namespace DriverQueries.OverflowGuards

open IntegerTypes

/-- An expression, with the explicit conversions in it. -/
inductive Expr (Var : Type)
  | access (v : Var)
  | literal (value : ℤ)
  | other (t : IntType) (value : ℤ)
  | add (left right : Expr Var)
  | cast (t : IntType) (e : Expr Var)
  deriving DecidableEq

inductive Operator
  | lt | le | gt | ge
  deriving DecidableEq

structure RelationalOperation (Var : Type) where
  operator : Operator
  left : Expr Var
  right : Expr Var
  deriving DecidableEq

/-- The variables of a program and their types. -/
structure Scope where
  Var : Type
  type : Var → IntType

structure State (S : Scope) where
  value : S.Var → ℤ
  contains : ∀ v, (S.type v).Contains (value v)

section Guards

variable {S : Scope}

def getType : Expr S.Var → IntType
  | .access v => S.type v
  | .literal _ => .int
  | .other t _ => t
  | .add left right => (getType left).usual (getType right)
  | .cast t _ => t

def unconverted : Expr S.Var → Expr S.Var
  | .cast _ e => unconverted e
  | e => e

/-- The operands of a comparison, with their explicit conversions. -/
def operands (cmp : RelationalOperation S.Var) : List (Expr S.Var) := [cmp.left, cmp.right]

/-- The query: a comparison of a sum of small operands with a variable that is one of them. -/
def BadOverflowGuard (cmp : RelationalOperation S.Var) : Prop :=
  ∃ sum ∈ operands cmp, ∃ left right v, unconverted sum = .add left right ∧
    (unconverted left = .access v ∨ unconverted right = .access v) ∧
    (∀ op ∈ [left, right], (getType (unconverted op)).size < 4) ∧
    (∃ e ∈ operands cmp, unconverted e = .access v) ∧
    ¬ (getType sum).size < 4

/-! ### Evaluation -/

variable (s : State S)

/-- The value of an expression. The overflow of a signed operation is undefined. -/
def eval : Expr S.Var → Option ℤ
  | .access v => some (s.value v)
  | .literal value => some (IntType.int.wrap value)
  | .other t value => some (t.wrap value)
  | .cast t e => (eval e).map t.wrap
  | .add left right => do
    let t := (getType left).usual (getType right)
    let sum := t.wrap (← eval left) + t.wrap (← eval right)
    if t.signed ∧ ¬ t.Contains sum then none else some (t.wrap sum)

def compare : Operator → ℤ → ℤ → Bool
  | .lt, i, j => i < j
  | .le, i, j => i ≤ j
  | .gt, i, j => j < i
  | .ge, i, j => j ≤ i

def holds (cmp : RelationalOperation S.Var) : Option Bool := do
  let t := (getType cmp.left).usual (getType cmp.right)
  return compare cmp.operator (t.wrap (← eval s cmp.left)) (t.wrap (← eval s cmp.right))

/-- The value of an expression in whole numbers, without its conversions. -/
def exact : Expr S.Var → ℤ
  | .access v => s.value v
  | .literal value => IntType.int.wrap value
  | .other t value => t.wrap value
  | .cast _ e => exact e
  | .add left right => exact left + exact right

/-- Explicit conversions are only made of whole sums, once at most, and what is compared is
unsigned. -/
structure Plain (cmp : RelationalOperation S.Var) : Prop where
  sum : ∀ e ∈ operands cmp, ∀ left right, unconverted e = .add left right →
    e = .add left right ∨ ∃ t, e = .cast t (.add left right)
  add : ∀ e ∈ operands cmp, ∀ left right, unconverted e = .add left right → ∀ op ∈ [left, right],
    unconverted op = op ∧ (getType op).signed = false
  access : ∀ e ∈ operands cmp, ∀ v, unconverted e = .access v →
    e = .access v ∧ (S.type v).signed = false

variable {s} {cmp : RelationalOperation S.Var} {e : Expr S.Var}

lemma unconverted_ne_cast {t : IntType} : ∀ e e' : Expr S.Var, unconverted e ≠ .cast t e'
  | .cast _ e, e' => unconverted_ne_cast e e'
  | .access _, _ => by simp [unconverted]
  | .literal _, _ => by simp [unconverted]
  | .other _ _, _ => by simp [unconverted]
  | .add _ _, _ => by simp [unconverted]

/-- Small expressions without conversions have exact values. -/
lemma eval_small (hplain : unconverted e = e) (hsmall : (getType e).size < 4)
    (hunsigned : (getType e).signed = false) :
    eval s e = some (exact s e) ∧ (getType e).Contains (exact s e) ∧ 0 ≤ exact s e ∧
      exact s e < 2 ^ 24 := by
  have hbound : ∀ i, (getType e).Contains i → 0 ≤ i ∧ i < 2 ^ 24 := fun i hi => by
    obtain ⟨hmin, hmax⟩ := hi
    have hpow : (2 : ℤ) ^ (8 * (getType e).size) ≤ 2 ^ 24 :=
      pow_le_pow_right₀ (by norm_num) (by omega)
    rw [IntType.min_of_unsigned hunsigned] at hmin
    rw [IntType.max_of_unsigned hunsigned, IntType.modulus] at hmax
    omega
  suffices h : eval s e = some (exact s e) ∧ (getType e).Contains (exact s e) from
    ⟨h.1, h.2, hbound _ h.2⟩
  cases e with
  | access v => exact ⟨rfl, s.contains v⟩
  | literal value => exact absurd hsmall (by simp [getType, IntType.int])
  | other t value => exact ⟨rfl, t.contains_wrap value⟩
  | add left right => exact absurd hsmall (by simpa [getType] using IntType.four_le_usual _ _)
  | cast t e => exact absurd hplain (unconverted_ne_cast _ _)

lemma eval_sum {left right : Expr S.Var}
    (hplain : ∀ op ∈ [left, right], unconverted op = op ∧ (getType op).signed = false)
    (hsmall : ∀ op ∈ [left, right], (getType op).size < 4)
    (he : e = .add left right ∨ ∃ t, e = .cast t (.add left right)) (hsize : 4 ≤ (getType e).size) :
    eval s e = some (exact s e) ∧ (getType e).Contains (exact s e) ∧ 0 ≤ exact s e := by
  obtain ⟨hl, hlc, hl0, hl24⟩ := eval_small (s := s) (hplain left (by simp)).1
    (hsmall left (by simp)) (hplain left (by simp)).2
  obtain ⟨hr, hrc, hr0, hr24⟩ := eval_small (s := s) (hplain right (by simp)).1
    (hsmall right (by simp)) (hplain right (by simp)).2
  have htype : (getType left).usual (getType right) = .int :=
    IntType.usual_of_small (hsmall left (by simp)) (hsmall right (by simp))
  have hcontains : ∀ t : IntType, 4 ≤ t.size → t.Contains (exact s left + exact s right) :=
    fun t ht => IntType.contains_of_lt (t := .int) ht (by omega) (by simp [IntType.int]; omega)
  have hint : ∀ i, 0 ≤ i → i < 2 ^ 24 → IntType.int.wrap i = i := fun i hi hi' =>
    IntType.wrap_of_contains (IntType.contains_of_lt (t := .int) le_rfl hi
      (by simp [IntType.int]; omega))
  have hadd : eval s (.add left right) = some (exact s left + exact s right) := by
    simp only [eval, htype, hl, hr, Option.bind_eq_bind, Option.bind_some, hint _ hl0 hl24,
      hint _ hr0 hr24, IntType.wrap_of_contains (hcontains .int le_rfl), hcontains .int le_rfl,
      not_true_eq_false, and_false, if_false]
  rcases he with rfl | ⟨t, rfl⟩
  · exact ⟨hadd, hcontains _ hsize, by simp only [exact]; omega⟩
  · refine ⟨?_, hcontains _ hsize, by simp only [exact]; omega⟩
    change (eval s (.add left right)).map t.wrap = _
    rw [hadd, Option.map_some, IntType.wrap_of_contains (hcontains t hsize)]
    rfl

lemma holds_of_exact
    (h : ∀ e ∈ operands cmp, eval s e = some (exact s e) ∧ (getType e).Contains (exact s e) ∧
      0 ≤ exact s e) :
    holds s cmp = some (compare cmp.operator (exact s cmp.left) (exact s cmp.right)) := by
  obtain ⟨hl, hlc, hl0⟩ := h cmp.left (by simp [operands])
  obtain ⟨hr, hrc, hr0⟩ := h cmp.right (by simp [operands])
  simp only [holds, hl, hr, Option.bind_eq_bind, Option.bind_some,
    IntType.wrap_of_contains (IntType.contains_usual hlc hl0).1,
    IntType.wrap_of_contains (IntType.contains_usual hrc hr0).2]
  rfl

/-- **A reported comparison is one of the exact sum**, so that it cannot find an overflow. -/
theorem holds_of_badOverflowGuard (h : BadOverflowGuard cmp) (hplain : Plain cmp) (s : State S) :
    holds s cmp = some (compare cmp.operator (exact s cmp.left) (exact s cmp.right)) := by
  obtain ⟨sum, hsum, left, right, v, hadd, haccess, hsmall, ⟨e, he, hv⟩, hsize⟩ := h
  have hops := hplain.add sum hsum left right hadd
  have hsmall' : ∀ op ∈ [left, right], (getType op).size < 4 := fun op hop =>
    (hops op hop).1 ▸ hsmall op hop
  obtain ⟨rfl, hunsigned⟩ := hplain.access e he v hv
  have hvsmall : (S.type v).size < 4 := by
    rcases haccess with haccess | haccess
    · simpa only [haccess, getType] using hsmall left (by simp)
    · simpa only [haccess, getType] using hsmall right (by simp)
  have hsumexact := eval_sum (s := s) hops hsmall' (hplain.sum sum hsum left right hadd)
    (not_lt.mp hsize)
  have haccessexact := eval_small (s := s) (e := .access v) rfl hvsmall hunsigned
  refine holds_of_exact fun op hop => ?_
  -- the comparison has two operands: the sum and the access of the variable
  by_cases hopsum : op = sum
  · exact hopsum ▸ hsumexact
  · have hne : sum ≠ .access v := by
      rintro rfl
      simp [unconverted] at hadd
    have hopaccess : op = .access v := by
      simp only [operands, List.mem_cons, List.not_mem_nil, or_false] at hsum he hop
      grind
    exact hopaccess ▸ ⟨haccessexact.1, haccessexact.2.1, haccessexact.2.2.1⟩

end Guards

/-- Two parameters `unsigned short v, unsigned short b`. -/
abbrev twoShorts : Scope where
  Var := Bool
  type _ := .ushort

/-- `v + b < v`. -/
def sumBelow : RelationalOperation Bool :=
  ⟨.lt, .add (.access true) (.access false), .access true⟩

def largestAndOne : State twoShorts where
  value := Bool.rec 1 65535
  contains := Bool.rec (by decide) (by decide)

theorem holds_of_badOverflowGuard_sumBelow :
    holds largestAndOne sumBelow = some (compare .lt (65535 + 1) 65535) := by
  have hmem : ∀ e ∈ operands (S := twoShorts) sumBelow,
      e = .add (.access true) (.access false) ∨ e = .access true := by simp [operands, sumBelow]
  refine @holds_of_badOverflowGuard twoShorts sumBelow ?_ ?_ largestAndOne
  · exact ⟨sumBelow.left, by simp [operands], .access true, .access false, true, rfl, .inl rfl,
      by decide, ⟨sumBelow.right, by simp [operands], rfl⟩, by decide⟩
  · constructor
    · rintro e he left right hadd
      rcases hmem e he with rfl | rfl
      · exact .inl hadd
      · exact nomatch hadd
    · rintro e he left right hadd
      rcases hmem e he with rfl | rfl
      · obtain ⟨rfl, rfl⟩ := Expr.add.inj hadd
        decide
      · exact nomatch hadd
    · rintro e he v haccess
      rcases hmem e he with rfl | rfl
      · exact nomatch haccess
      · exact ⟨haccess, rfl⟩

/-! ### The guards that find the overflow -/

section Finding

variable {S : Scope} {s : State S} {e : Expr S.Var}

/-- The sum of two variables, converted if a type is given. -/
def guardSum (v b : S.Var) : Option IntType → Expr S.Var
  | none => .add (.access v) (.access b)
  | some t => .cast t (.add (.access v) (.access b))

/-- `v + b < v`, or `v > v + b`. -/
def guard (v b : S.Var) (conversion : Option IntType) (swapped : Bool) :
    RelationalOperation S.Var :=
  if swapped then ⟨.gt, .access v, guardSum v b conversion⟩
  else ⟨.lt, guardSum v b conversion, .access v⟩

/-- The guard is true of the values whose sum is too large for the type of the variable. -/
def Detects (cmp : RelationalOperation S.Var) (v b : S.Var) : Prop :=
  ∀ s : State S, holds s cmp = some (decide ((S.type v).max < s.value v + s.value b))

/-- What the sum of two values of an unsigned type evaluates to. -/
def sumValue (t : IntType) (i j : ℤ) : ℤ := if t.size < 4 then i + j else t.wrap (i + j)

def convert : Option IntType → ℤ → ℤ
  | none, i => i
  | some t, i => t.wrap i

variable {v b : S.Var} {conversion : Option IntType} {swapped : Bool} {t c : IntType} {i j : ℤ}

lemma bounds_of_contains (ht : t.signed = false) (hi : t.Contains i) : 0 ≤ i ∧ i < t.modulus := by
  obtain ⟨hmin, hmax⟩ := hi
  rw [IntType.min_of_unsigned ht] at hmin
  rw [IntType.max_of_unsigned ht] at hmax
  omega

lemma contains_of_bounds (ht : t.signed = false) (hi : 0 ≤ i ∧ i < t.modulus) : t.Contains i := by
  unfold IntType.Contains
  rw [IntType.min_of_unsigned ht, IntType.max_of_unsigned ht]
  omega

lemma eval_guardSum_none (hv : (S.type v).signed = false) (hb : S.type b = S.type v) :
    eval s (guardSum v b none) = some (sumValue (S.type v) (s.value v) (s.value b)) ∧
      (getType (guardSum v b none)).Contains (sumValue (S.type v) (s.value v) (s.value b)) ∧
      0 ≤ sumValue (S.type v) (s.value v) (s.value b) := by
  have hcv := s.contains v
  have hcb := s.contains b
  rw [hb] at hcb
  by_cases hsmall : (S.type v).size < 4
  · have hexact : exact s (guardSum v b none) =
        sumValue (S.type v) (s.value v) (s.value b) := by
      simp [guardSum, exact, sumValue, hsmall]
    rw [← hexact]
    have hops : ∀ op ∈ [.access v, .access b],
        unconverted op = op ∧ (getType op).signed = false := by simp [unconverted, getType, hv, hb]
    exact eval_sum hops (by simp [getType, hsmall, hb]) (.inl rfl) (IntType.four_le_usual _ _)
  · have htype : (S.type v).usual (S.type v) = S.type v := IntType.usual_self (not_lt.mp hsmall)
    have hcontains := (S.type v).contains_wrap (s.value v + s.value b)
    simp only [guardSum, eval, getType, hb, htype, sumValue, hsmall, if_false, hv,
      Bool.false_eq_true, false_and, Option.bind_eq_bind, Option.bind_some,
      IntType.wrap_of_contains hcv, IntType.wrap_of_contains hcb]
    exact ⟨trivial, hcontains, (bounds_of_contains hv hcontains).1⟩

lemma eval_guardSum (hv : (S.type v).signed = false) (hb : S.type b = S.type v)
    (hconversion : ∀ c ∈ conversion, c.signed = false) :
    eval s (guardSum v b conversion) =
        some (convert conversion (sumValue (S.type v) (s.value v) (s.value b))) ∧
      (getType (guardSum v b conversion)).Contains
        (convert conversion (sumValue (S.type v) (s.value v) (s.value b))) ∧
      0 ≤ convert conversion (sumValue (S.type v) (s.value v) (s.value b)) := by
  have hnone := eval_guardSum_none (s := s) hv hb
  cases conversion with
  | none => exact hnone
  | some c =>
    have hcontains := c.contains_wrap (sumValue (S.type v) (s.value v) (s.value b))
    refine ⟨?_, hcontains, (bounds_of_contains (hconversion c rfl) hcontains).1⟩
    change (eval s (guardSum v b none)).map c.wrap = _
    rw [hnone.1]
    rfl

/-- The guard compares the converted sum with the variable. -/
lemma holds_guard (hv : (S.type v).signed = false) (hb : S.type b = S.type v)
    (hconversion : ∀ c ∈ conversion, c.signed = false) :
    holds s (guard v b conversion swapped) =
      some (decide (convert conversion (sumValue (S.type v) (s.value v) (s.value b)) <
        s.value v)) := by
  obtain ⟨hsum, hcontains, hnonneg⟩ := eval_guardSum (s := s) hv hb hconversion
  have hcv := s.contains v
  have hv0 := (bounds_of_contains hv hcv).1
  have haccess : eval s (.access v) = some (s.value v) := rfl
  cases swapped with
  | false =>
    simp only [guard, Bool.false_eq_true, if_false, holds, hsum, haccess, Option.bind_eq_bind,
      Option.bind_some, IntType.wrap_of_contains (IntType.contains_usual hcontains hnonneg).1]
    rw [IntType.wrap_of_contains (t := (getType _).usual (getType (.access v)))
      (IntType.contains_usual (t := getType (.access v)) hcv hv0).2]
    rfl
  | true =>
    simp only [guard, if_true, holds, hsum, haccess, Option.bind_eq_bind,
      Option.bind_some, IntType.wrap_of_contains (IntType.contains_usual hcontains hnonneg).2]
    rw [IntType.wrap_of_contains (t := (getType (.access v)).usual (getType _))
      (IntType.contains_usual (t := getType (.access v)) hcv hv0).1]
    rfl

lemma mem_operands_guard :
    e ∈ operands (guard v b conversion swapped) ↔ e = guardSum v b conversion ∨ e = .access v := by
  cases swapped with
  | false => simp [guard, operands]
  | true => simp [guard, operands, or_comm]

lemma unconverted_guardSum :
    unconverted (guardSum v b conversion) = .add (.access v) (.access b) := by
  cases conversion <;> rfl

/-- The guard is reported if its operands are small and the sum is not converted to a small type. -/
lemma badOverflowGuard_guard_iff (hb : S.type b = S.type v) :
    BadOverflowGuard (guard v b conversion swapped) ↔
      (S.type v).size < 4 ∧ ∀ c ∈ conversion, 4 ≤ c.size := by
  have hsize : ¬ (getType (guardSum v b conversion)).size < 4 ↔ ∀ c ∈ conversion, 4 ≤ c.size := by
    cases conversion with
    | none => simpa [guardSum, getType] using IntType.four_le_usual _ _
    | some c => simp [guardSum, getType]
  rw [← hsize]
  constructor
  · rintro ⟨sum, hsum, left, right, w, hadd, -, hsmall, -, hlarge⟩
    rcases mem_operands_guard.mp hsum with rfl | rfl
    · rw [unconverted_guardSum] at hadd
      obtain ⟨rfl, rfl⟩ := Expr.add.inj hadd
      exact ⟨hsmall (.access v) (by simp), hlarge⟩
    · simp [unconverted] at hadd
  · rintro ⟨hsmall, hlarge⟩
    refine ⟨_, mem_operands_guard.mpr (.inl rfl), _, _, v, unconverted_guardSum, .inl rfl, ?_,
      ⟨_, mem_operands_guard.mpr (.inr rfl), rfl⟩, hlarge⟩
    simp [unconverted, getType, hb, hsmall]

lemma exists_state (hne : v ≠ b) (hb : S.type b = S.type v) (hi : (S.type v).Contains i)
    (hj : (S.type v).Contains j) : ∃ s : State S, s.value v = i ∧ s.value b = j := by
  classical
  refine ⟨⟨fun x => if x = v then i else if x = b then j else 0, fun x => ?_⟩, ?_, ?_⟩
  · split_ifs with hx hx'
    · exact hx ▸ hi
    · exact hx' ▸ hb ▸ hj
    · exact IntType.contains_zero _
  · simp
  · simp [hne.symm]

/-- The guard finds the overflow of each sum of two values of the type. -/
def Finds (conversion : Option IntType) (t : IntType) : Prop :=
  ∀ i j, t.Contains i → t.Contains j →
    (convert conversion (sumValue t i j) < i ↔ t.max < i + j)

lemma detects_guard_iff (hne : v ≠ b) (hv : (S.type v).signed = false)
    (hb : S.type b = S.type v) (hconversion : ∀ c ∈ conversion, c.signed = false) :
    Detects (guard v b conversion swapped) v b ↔ Finds conversion (S.type v) := by
  constructor
  · intro h i j hi hj
    obtain ⟨s, rfl, rfl⟩ := exists_state hne hb hi hj
    have hs := h s
    rw [holds_guard hv hb hconversion, Option.some.injEq, decide_eq_decide] at hs
    exact hs
  · intro h s
    rw [holds_guard hv hb hconversion, Option.some.injEq, decide_eq_decide]
    exact h _ _ (s.contains v) (hb ▸ s.contains b)

lemma not_finds_of_exact (ht : t.signed = false)
    (h : ∀ i j, t.Contains i → t.Contains j → convert conversion (sumValue t i j) = i + j) :
    ¬ Finds conversion t := by
  intro hfinds
  have hpos : 0 < t.max := by
    have hmodulus := t.modulus_eq
    have hbits := t.pos
    have hpow : (1 : ℤ) < 2 ^ (8 * t.size - 1) := one_lt_pow₀ (by norm_num) (by omega)
    rw [IntType.max_of_unsigned ht]
    omega
  have hmax : t.Contains t.max := ⟨t.min_nonpos.trans hpos.le, le_rfl⟩
  have hiff := hfinds t.max t.max hmax hmax
  rw [h _ _ hmax hmax] at hiff
  omega

/-- A sum that wraps around the range of its operands is less than them iff it overflows. -/
lemma finds_of_wrap (ht : t.signed = false)
    (h : ∀ i j, convert conversion (sumValue t i j) = t.wrap (i + j)) : Finds conversion t := by
  intro i j hi hj
  have hbi := bounds_of_contains ht hi
  have hbj := bounds_of_contains ht hj
  rw [h, IntType.wrap_of_unsigned ht, IntType.max_of_unsigned ht]
  by_cases hover : i + j < t.modulus
  · rw [Int.emod_eq_of_lt (by omega) hover]
    omega
  · have hwrap : (i + j) % t.modulus = i + j - t.modulus := by
      rw [← Int.sub_emod_right, Int.emod_eq_of_lt (by omega) (by omega)]
    rw [hwrap]
    omega

lemma not_finds_of_smaller (ht : t.signed = false) (hc : c.signed = false)
    (hsize : c.size < t.size) : ¬ Finds (some c) t := by
  intro hfinds
  have hpos := c.modulus_pos
  have hlt := IntType.modulus_lt hsize
  have hi : t.Contains c.modulus := contains_of_bounds ht (by omega)
  have hsum : sumValue t c.modulus 0 = c.modulus := by
    unfold sumValue
    split_ifs
    · exact add_zero _
    · rw [add_zero, IntType.wrap_of_contains hi]
  have hiff := hfinds c.modulus 0 hi t.contains_zero
  rw [convert, hsum, IntType.wrap_of_unsigned hc, Int.emod_self, IntType.max_of_unsigned ht] at hiff
  omega

/-- The sums of small operands need a conversion to the type of these, and those of others none. -/
lemma finds_iff (ht : t.signed = false) (hconversion : ∀ c ∈ conversion, c.signed = false) :
    Finds conversion t ↔
      (t.size < 4 ∧ conversion = some t) ∨ (4 ≤ t.size ∧ ∀ c ∈ conversion, t.size ≤ c.size) := by
  -- small operands are promoted, so that the sum wraps around only by a conversion
  by_cases hsmall : t.size < 4
  · have hsum : ∀ i j, sumValue t i j = i + j := fun i j => if_pos hsmall
    simp only [hsmall, true_and, not_le.mpr hsmall, false_and, or_false]
    constructor
    · intro hfinds
      cases conversion with
      | none => exact absurd hfinds (not_finds_of_exact ht fun i j _ _ => hsum i j)
      | some c =>
        have hc := hconversion c rfl
        rcases lt_trichotomy c.size t.size with hlt | heq | hgt
        · exact absurd hfinds (not_finds_of_smaller ht hc hlt)
        · exact congrArg some (IntType.ext (hc.trans ht.symm) heq)
        · refine absurd hfinds (not_finds_of_exact ht fun i j hi hj => ?_)
          have hbi := bounds_of_contains ht hi
          have hbj := bounds_of_contains ht hj
          have hmodulus := IntType.modulus_lt hgt
          rw [hsum]
          exact IntType.wrap_of_contains (contains_of_bounds hc (by omega))
    · rintro rfl
      exact finds_of_wrap ht fun i j => by rw [hsum]; rfl
  · have hsum : ∀ i j, sumValue t i j = t.wrap (i + j) := fun i j => if_neg hsmall
    simp only [hsmall, false_and, not_lt.mp hsmall, true_and, false_or]
    constructor
    · rintro hfinds c hc
      by_contra hsize
      rw [Option.mem_def.mp hc] at hfinds
      exact not_finds_of_smaller ht (hconversion c hc) (by omega) hfinds
    · intro hsize
      refine finds_of_wrap ht fun i j => ?_
      have hcontains := t.contains_wrap (i + j)
      cases conversion with
      | none => exact hsum i j
      | some c =>
        rw [convert, hsum]
        rcases (hsize c rfl).lt_or_eq with hlt | heq
        · exact IntType.wrap_of_contains (IntType.contains_of_size_lt hlt hcontains
            (.inr (bounds_of_contains ht hcontains).1))
        · rw [← IntType.ext (ht.trans (hconversion c rfl).symm) heq]
          exact IntType.wrap_of_contains hcontains

/-- **The query reports the guards that do not find the overflow**, apart from those whose sum is
converted to a type that is neither that of the operands nor large enough to keep its values. -/
theorem detects_iff (hne : v ≠ b) (hv : (S.type v).signed = false) (hb : S.type b = S.type v)
    (hconversion : ∀ c ∈ conversion, c.signed = false) :
    Detects (guard v b conversion swapped) v b ↔
      ¬ BadOverflowGuard (guard v b conversion swapped) ∧
        ∀ c ∈ conversion, c = S.type v ∨ 4 ≤ c.size ∧ (S.type v).size ≤ c.size := by
  rw [detects_guard_iff hne hv hb hconversion, badOverflowGuard_guard_iff hb,
    finds_iff hv hconversion]
  cases conversion with
  | none => simp
  | some c =>
    simp only [Option.mem_some_iff, forall_eq', Option.some.injEq]
    constructor
    · rintro (⟨hsmall, rfl⟩ | ⟨hlarge, hle⟩)
      · exact ⟨by omega, .inl rfl⟩
      · exact ⟨by omega, .inr ⟨by omega, hle⟩⟩
    · rintro ⟨hnot, rfl | ⟨hlarge, hle⟩⟩
      · rcases lt_or_ge (S.type v).size 4 with hsmall | hlarge
        · exact .inl ⟨hsmall, rfl⟩
        · exact .inr ⟨hlarge, le_rfl⟩
      · exact .inr ⟨by omega, hle⟩

end Finding

/-- `(unsigned short)(v + b) < v` finds the overflow. -/
theorem detects_iff_ushort :
    Detects (guard (S := twoShorts) true false (some .ushort) false) true false := by
  refine (detects_iff (S := twoShorts) (v := true) (b := false) ?_ rfl rfl ?_).mpr ⟨?_, ?_⟩
  · exact Bool.noConfusion
  · simp [IntType.ushort]
  · have hb : twoShorts.type false = twoShorts.type true := rfl
    intro h
    exact absurd ((badOverflowGuard_guard_iff hb).mp h) (by simp [IntType.ushort])
  · simp

end DriverQueries.OverflowGuards
