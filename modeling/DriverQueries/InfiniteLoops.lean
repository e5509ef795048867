import DriverQueries.IntegerTypes
import DriverQueries.Text

/-!
Loops whose counter is narrower than their bound.

A counter that counts up never reaches a bound that its type does not have. The query reports the
comparisons in loop conditions of narrow with wide operands. It leaves out bounds with known values,
if the largest of these is small enough. It is shown which of the loops that never end it leaves
out by that.
-/

namespace DriverQueries.InfiniteLoops

open DriverQueries.Text IntegerTypes

/-! ### The query -/

/-- An expression: its type, without and with explicit conversions, its value if it is constant, the
literals that the variable it accesses is assigned if these are all, the variable, the function if
it is a call, and the type of the left operand of a division or subtraction. -/
structure Expr where
  getType : IntType
  explicitType : IntType
  getValue : Option String := none
  getALiteralValue : List String := []
  accessed : Option String := none
  target : Option String := none
  divLeft : Option IntType := none
  subLeft : Option IntType := none

structure RelationalOperation where
  strict : Bool
  getLesserOperand : Expr
  getGreaterOperand : Expr

/-- The logarithm of the number is at most `bits`. That of zero is below all numbers, and a negative
number has none. -/
def LogAtMost (bits : ℕ) (i : ℤ) : Prop := 0 ≤ i ∧ i ≤ 2 ^ bits

instance (bits : ℕ) : DecidablePred (LogAtMost bits) := fun _ => inferInstanceAs (Decidable (_ ∧ _))

def getALiteralInt (e : Expr) : List ℤ := e.getALiteralValue.filterMap toInt

def KnownMaxSizeAtMost (bits : ℕ) (e : Expr) : Prop :=
  (∃ value ∈ e.getValue, ∃ i ∈ toInt value, LogAtMost bits i) ∨
    (∃ i ∈ (getALiteralInt e).max?, LogAtMost bits i) ∨
    ∃ name ∈ e.target, matchesPattern name "Vms%GetNumberOfIndirectionTableEntries" ∧ 8 ≤ bits

instance (bits : ℕ) : DecidablePred (KnownMaxSizeAtMost bits) :=
  fun _ => inferInstanceAs (Decidable (_ ∨ _))

/-- The query, where `lesser` are the variables that are lesser operands of comparisons. -/
structure InfiniteLoop (lesser : List String) (rel : RelationalOperation) : Prop where
  narrow : rel.getLesserOperand.explicitType.size < rel.getGreaterOperand.explicitType.size
  literal : rel.getLesserOperand.getValue = none
  div : ∀ t ∈ rel.getGreaterOperand.divLeft, t.size ≠ rel.getLesserOperand.getType.size
  sub : ∀ t ∈ rel.getGreaterOperand.subLeft, t.size ≠ rel.getLesserOperand.getType.size
  bound : ∀ v ∈ rel.getGreaterOperand.accessed, v ∉ lesser
  maxSize : ¬ KnownMaxSizeAtMost (rel.getLesserOperand.getType.size * 8) rel.getGreaterOperand

/-! ### Loops that count up -/

/-- The comparison of a value of one type with a value of another. -/
def holds (strict : Bool) (t u : IntType) (i bound : ℤ) : Prop :=
  if strict then (t.usual u).wrap i < (t.usual u).wrap bound
  else (t.usual u).wrap i ≤ (t.usual u).wrap bound

/-- The loop from `start` whose body only increments the counter never ends. -/
def RunsForever (strict : Bool) (t u : IntType) (start bound : ℤ) : Prop :=
  ∀ n, holds strict t u (t.succ^[n] start) bound

/-- The least bound that the counter is always below. -/
def limit (strict : Bool) (t : IntType) : ℤ := if strict then t.max + 1 else t.max

def knownValues (e : Expr) : List ℤ :=
  match e.getValue with
  | some value => (toInt value).toList
  | none => getALiteralInt e

/-- The counter is narrower than the bound, no conversion makes its values positive, and the values
of the bound are known and positive. -/
structure CountsUp (lesser : List String) (rel : RelationalOperation) (start : ℤ) : Prop where
  counter : rel.getLesserOperand.explicitType = rel.getLesserOperand.getType
  literal : rel.getLesserOperand.getValue = none
  start : rel.getLesserOperand.getType.Contains start
  narrow : rel.getLesserOperand.getType.size < rel.getGreaterOperand.explicitType.size
  signed : rel.getLesserOperand.getType.signed →
    (rel.getLesserOperand.getType.usual rel.getGreaterOperand.explicitType).signed
  known : knownValues rel.getGreaterOperand ≠ []
  values : ∀ i ∈ knownValues rel.getGreaterOperand,
    0 < i ∧ rel.getGreaterOperand.explicitType.Contains i
  either : rel.getGreaterOperand.getValue = none ∨ rel.getGreaterOperand.getALiteralValue = []
  other : rel.getGreaterOperand.target = none ∧ rel.getGreaterOperand.divLeft = none ∧
    rel.getGreaterOperand.subLeft = none ∧ ∀ v ∈ rel.getGreaterOperand.accessed, v ∉ lesser

variable {lesser : List String} {rel : RelationalOperation} {start : ℤ} {strict : Bool}
  {t u : IntType} {i bound : ℤ}

lemma holds_iff (hi : (t.usual u).Contains i) (hbound : (t.usual u).Contains bound) :
    holds strict t u i bound ↔ if strict then i < bound else i ≤ bound := by
  unfold holds
  rw [IntType.wrap_of_contains hi, IntType.wrap_of_contains hbound]

/-- **A loop never ends iff its bound is at or past the limit of its counter.** -/
lemma runsForever_iff (hstart : t.Contains start) (hnarrow : t.size < u.size)
    (hsigned : t.signed → (t.usual u).signed) (hbound : u.Contains bound) (hpos : 0 < bound) :
    RunsForever strict t u start bound ↔ limit strict t ≤ bound := by
  have hsize : t.size < (t.usual u).size := hnarrow.trans_le (IntType.size_le_usual t u).2
  have hcounter : ∀ i, t.Contains i → (t.usual u).Contains i := fun i hi => by
    cases hsign : t.signed with
    | true => exact IntType.contains_of_size_lt hsize hi (.inl (hsigned hsign))
    | false =>
      have hmin := hi.1
      rw [IntType.min_of_unsigned hsign] at hmin
      exact IntType.contains_of_size_lt hsize hi (.inr hmin)
  have hkept := (IntType.contains_usual (u := t) hbound hpos.le).2
  have hiff : RunsForever strict t u start bound ↔
      ∀ n, if strict then t.succ^[n] start < bound else t.succ^[n] start ≤ bound :=
    forall_congr' fun n => holds_iff (hcounter _ (IntType.contains_iterate hstart n)) hkept
  rw [hiff, IntType.forever_iff (p := fun i => if strict then i < bound else i ≤ bound) ?_ hstart]
  · unfold limit
    split_ifs <;> omega
  · intro i j hij hj
    split_ifs at hj ⊢ <;> omega

lemma max?_le_iff {l : List ℤ} (hl : l ≠ []) (hpos : ∀ i ∈ l, 0 < i) {k : ℤ} :
    (∃ i ∈ l.max?, 0 ≤ i ∧ i ≤ k) ↔ ∀ i ∈ l, i ≤ k := by
  obtain ⟨m, hm⟩ := Option.ne_none_iff_exists'.mp (mt List.max?_eq_none_iff.mp hl)
  obtain ⟨hmem, hle⟩ := List.max?_eq_some_iff.mp hm
  simp only [hm, Option.mem_some_iff, exists_eq_left']
  exact ⟨fun h i hi => (hle i hi).trans h.2, fun h => ⟨(hpos m hmem).le, h m hmem⟩⟩

/-- Bounds with known values are left out iff all of these are small. -/
lemma knownMaxSizeAtMost_iff (h : CountsUp lesser rel start) (bits : ℕ) :
    KnownMaxSizeAtMost bits rel.getGreaterOperand ↔
      ∀ i ∈ knownValues rel.getGreaterOperand, i ≤ 2 ^ bits := by
  have hknown := h.known
  have hpos := fun i hi => (h.values i hi).1
  unfold KnownMaxSizeAtMost LogAtMost
  unfold knownValues at hknown hpos ⊢
  simp only [h.other.1, Option.not_mem_none, false_and, exists_false, or_false]
  cases hvalue : rel.getGreaterOperand.getValue with
  | none =>
    simp only [hvalue] at hknown hpos
    simp only [Option.not_mem_none, false_and, exists_false, false_or]
    exact max?_le_iff hknown hpos
  | some value =>
    have hliterals : getALiteralInt rel.getGreaterOperand = [] := by
      simp [getALiteralInt, h.either.resolve_left (by simp [hvalue])]
    simp only [hvalue] at hpos
    simp only [Option.mem_some_iff, exists_eq_left', hliterals]
    cases hint : toInt value with
    | none => simp [hvalue, hint] at hknown
    | some i =>
      have hi : 0 < i := hpos i (by simp [hint])
      simp [hi.le]

/-- **The query reports a loop iff it never ends for some value of its bound, and not all values of
the bound are at most the number of values of the counter.** -/
theorem infiniteLoop_iff (h : CountsUp lesser rel start) :
    InfiniteLoop lesser rel ↔
      (∃ i ∈ knownValues rel.getGreaterOperand,
        RunsForever rel.strict rel.getLesserOperand.getType rel.getGreaterOperand.explicitType
          start i) ∧
      ¬ ∀ i ∈ knownValues rel.getGreaterOperand, i ≤ rel.getLesserOperand.getType.modulus := by
  have hmodulus : rel.getLesserOperand.getType.modulus =
      2 ^ (rel.getLesserOperand.getType.size * 8) := by rw [IntType.modulus, mul_comm]
  have hreported : InfiniteLoop lesser rel ↔
      ¬ ∀ i ∈ knownValues rel.getGreaterOperand, i ≤ rel.getLesserOperand.getType.modulus := by
    rw [hmodulus, ← knownMaxSizeAtMost_iff h]
    refine ⟨fun hloop => hloop.maxSize, fun hmax => ⟨?_, h.literal, ?_, ?_, h.other.2.2.2, hmax⟩⟩
    · exact h.counter ▸ h.narrow
    · simp [h.other.2.1]
    · simp [h.other.2.2.1]
  rw [hreported, and_iff_right_of_imp]
  intro hlarge
  simp only [not_forall, not_le] at hlarge
  obtain ⟨i, hi, hlt⟩ := hlarge
  refine ⟨i, hi, (runsForever_iff h.start h.narrow h.signed (h.values i hi).2
    (h.values i hi).1).mpr ?_⟩
  have hmin := rel.getLesserOperand.getType.min_nonpos
  unfold limit IntType.max
  split_ifs <;> omega

/-- `for (short i = 0; i < 40000; i++)`. -/
def shortLoop : RelationalOperation where
  strict := true
  getLesserOperand := { getType := .short, explicitType := .short }
  getGreaterOperand := { getType := .int, explicitType := .int, getValue := some "40000" }

/-- The loop never ends and is left out: 40000 is no `short`, but less than 65536. -/
theorem infiniteLoop_iff_shortLoop :
    RunsForever true .short .int 0 40000 ∧ ¬ InfiniteLoop [] shortLoop := by
  have hcounts : CountsUp [] shortLoop 0 := by constructor <;> decide
  have hbounds := hcounts.values 40000 (by decide)
  have hforever : RunsForever true .short .int 0 40000 :=
    (runsForever_iff hcounts.start hcounts.narrow hcounts.signed hbounds.2 hbounds.1).mpr
      (by decide)
  exact ⟨hforever, fun h => ((infiniteLoop_iff hcounts).mp h).2 (by decide)⟩

end DriverQueries.InfiniteLoops
