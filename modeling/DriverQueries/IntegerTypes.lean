import Mathlib.Algebra.Order.Ring.Int
import Mathlib.Data.Int.ModEq
import Mathlib.Logic.Function.Iterate
import Mathlib.Tactic.Linarith
import Mathlib.Tactic.Ring

/-!
Integer types of C, told apart by their size and their sign.

A value that is converted to a type wraps around its range. Operands of an operation are first
converted to a type that both can be promoted to, and types that are smaller than `int` are
promoted to it. A counter of such a type that counts up goes through all values of its type, so
that it stays below a bound for ever iff all of them are below it.
-/

namespace DriverQueries.IntegerTypes

/-- An integer type, with its size in bytes. -/
@[ext]
structure IntType where
  signed : Bool
  size : ℕ
  pos : 0 < size := by decide
  deriving DecidableEq

namespace IntType

/-- The size of `int` is 4 bytes. -/
def int : IntType := { signed := true, size := 4 }

def short : IntType := { signed := true, size := 2 }

def ushort : IntType := { signed := false, size := 2 }

variable (t u : IntType) {i j : ℤ}

def modulus : ℤ := 2 ^ (8 * t.size)

def min : ℤ := if t.signed then -2 ^ (8 * t.size - 1) else 0

def max : ℤ := t.min + t.modulus - 1

def Contains (i : ℤ) : Prop := t.min ≤ i ∧ i ≤ t.max

instance : DecidablePred t.Contains := fun _ => inferInstanceAs (Decidable (_ ∧ _))

/-- The conversion of a value to the type. -/
def wrap (i : ℤ) : ℤ := t.min + (i - t.min) % t.modulus

def promote : IntType := if t.size < 4 then int else t

/-- The type in which an operation on operands of two types is done. -/
def usual : IntType :=
  if t.promote.size < u.promote.size then u.promote
  else if u.promote.size < t.promote.size then t.promote
  else if t.promote.signed then u.promote else t.promote

/-! ### Ranges -/

lemma modulus_pos : 0 < t.modulus := by
  unfold modulus
  positivity

lemma modulus_eq : t.modulus = 2 * 2 ^ (8 * t.size - 1) := by
  have hpos := t.pos
  have hbits : 8 * t.size = 8 * t.size - 1 + 1 := by omega
  unfold modulus
  rw [hbits, pow_succ]
  simp only [Nat.add_sub_cancel]
  ring

lemma min_nonpos : t.min ≤ 0 := by
  unfold min
  split_ifs
  · have hpow : (0 : ℤ) < 2 ^ (8 * t.size - 1) := by positivity
    omega
  · rfl

lemma max_nonneg : 0 ≤ t.max := by
  have hpow : (0 : ℤ) < 2 ^ (8 * t.size - 1) := by positivity
  have hmodulus := t.modulus_eq
  unfold max min
  split_ifs <;> omega

lemma contains_zero : t.Contains 0 := ⟨t.min_nonpos, t.max_nonneg⟩

variable {t u}

lemma min_of_unsigned (h : t.signed = false) : t.min = 0 := by simp [min, h]

lemma max_of_unsigned (h : t.signed = false) : t.max = t.modulus - 1 := by
  simp [max, min_of_unsigned h]

lemma modulus_lt (h : t.size < u.size) : 2 * t.modulus < u.modulus := by
  have hpow : (2 : ℤ) ^ (8 * t.size + 1) < 2 ^ (8 * u.size) :=
    pow_lt_pow_right₀ (by norm_num) (by omega)
  unfold modulus
  linarith [pow_succ (2 : ℤ) (8 * t.size)]

lemma max_lt (h : t.size < u.size) : t.modulus ≤ u.max := by
  have hpow : (0 : ℤ) < 2 ^ (8 * u.size - 1) := by positivity
  have hlt := modulus_lt h
  have hu := u.modulus_eq
  unfold max min
  split_ifs <;> omega

lemma min_le (h : t.size < u.size) (hu : u.signed) : u.min ≤ t.min := by
  have hpow : (0 : ℤ) < 2 ^ (8 * t.size - 1) := by positivity
  have hlt := modulus_lt h
  have ht := t.modulus_eq
  have hu' := u.modulus_eq
  unfold min
  rw [if_pos hu]
  split_ifs <;> omega

/-! ### Conversions -/

lemma contains_wrap (t : IntType) (i : ℤ) : t.Contains (t.wrap i) := by
  have hnonneg := Int.emod_nonneg (i - t.min) t.modulus_pos.ne'
  have hlt := Int.emod_lt_of_pos (i - t.min) t.modulus_pos
  unfold Contains wrap max
  omega

lemma wrap_of_contains (h : t.Contains i) : t.wrap i = i := by
  obtain ⟨hmin, hmax⟩ := h
  unfold max at hmax
  unfold wrap
  rw [Int.emod_eq_of_lt (by omega) (by omega)]
  ring

lemma wrap_of_unsigned (h : t.signed = false) (i : ℤ) : t.wrap i = i % t.modulus := by
  simp [wrap, min_of_unsigned h]

lemma wrap_modEq {n : ℕ} (hn : n ≤ 8 * t.size) (i : ℤ) : t.wrap i ≡ i [ZMOD 2 ^ n] := by
  have hdvd : (2 : ℤ) ^ n ∣ t.modulus := pow_dvd_pow 2 hn
  calc t.wrap i ≡ t.min + (i - t.min) [ZMOD 2 ^ n] :=
        ((Int.mod_modEq (i - t.min) t.modulus).of_dvd hdvd).add_left t.min
    _ = i := by ring

lemma contains_of_size_lt (h : t.size < u.size) (hi : t.Contains i) (hsign : u.signed ∨ 0 ≤ i) :
    u.Contains i := by
  obtain ⟨hmin, hmax⟩ := hi
  have hlast := max_lt h
  have hmin' := t.min_nonpos
  refine ⟨?_, by unfold max at hmax; omega⟩
  rcases hsign with hsigned | hnonneg
  · exact (min_le h hsigned).trans hmin
  · exact u.min_nonpos.trans hnonneg

lemma contains_of_lt (hsize : t.size ≤ u.size) (hi : 0 ≤ i) (hlt : i < 2 ^ (8 * t.size - 1)) :
    u.Contains i := by
  have hpow : (2 : ℤ) ^ (8 * t.size - 1) ≤ 2 ^ (8 * u.size - 1) :=
    pow_le_pow_right₀ (by norm_num) (by omega)
  have hmodulus := u.modulus_eq
  refine ⟨u.min_nonpos.trans hi, ?_⟩
  unfold max min
  split_ifs <;> omega

lemma promote_of_le (h : 4 ≤ t.size) : t.promote = t := if_neg (by omega)

lemma four_le_promote (t : IntType) : 4 ≤ t.promote.size := by
  unfold promote
  split_ifs with h
  · exact le_rfl
  · omega

lemma four_le_usual (t u : IntType) : 4 ≤ (t.usual u).size := by
  unfold usual
  split_ifs
  · exact u.four_le_promote
  · exact t.four_le_promote
  · exact u.four_le_promote
  · exact t.four_le_promote

lemma size_le_promote (t : IntType) : t.size ≤ t.promote.size := by
  unfold promote
  split_ifs with h
  · exact h.le
  · exact le_rfl

lemma size_le_usual (t u : IntType) : t.size ≤ (t.usual u).size ∧ u.size ≤ (t.usual u).size := by
  have ht := t.size_le_promote
  have hu := u.size_le_promote
  unfold usual
  split_ifs <;> omega

lemma usual_of_small (ht : t.size < 4) (hu : u.size < 4) : t.usual u = int := by
  simp [usual, promote, ht, hu]

lemma usual_self (h : 4 ≤ t.size) : t.usual t = t := by
  simp [usual, promote_of_le h]

lemma contains_promote (hi : t.Contains i) : t.promote.Contains i := by
  unfold promote
  split_ifs with h
  · exact contains_of_size_lt h hi (.inl rfl)
  · exact hi

lemma contains_of_size_eq (h : t.size = u.size) (hu : t.signed ∨ u.signed = false)
    (hi : t.Contains i) (hnonneg : 0 ≤ i) : u.Contains i := by
  have hmodulus : t.modulus = u.modulus := by simp [modulus, h]
  have hmin : t.min ≤ u.min := by
    rcases hu with ht | hu
    · have hpow : (0 : ℤ) < 2 ^ (8 * u.size - 1) := by positivity
      unfold min
      rw [if_pos ht, h]
      split_ifs <;> omega
    · rw [min_of_unsigned hu]
      exact t.min_nonpos
  refine ⟨u.min_nonpos.trans hnonneg, hi.2.trans ?_⟩
  unfold max
  omega

lemma contains_usual (hi : t.Contains i) (hnonneg : 0 ≤ i) :
    (t.usual u).Contains i ∧ (u.usual t).Contains i := by
  have hpromote := contains_promote hi
  unfold usual
  constructor
  · split_ifs with hlt hgt hsigned
    · exact contains_of_size_lt hlt hpromote (.inr hnonneg)
    · exact hpromote
    · exact contains_of_size_eq (by omega) (.inl hsigned) hpromote hnonneg
    · exact hpromote
  · split_ifs with hlt hgt hsigned
    · exact hpromote
    · exact contains_of_size_lt hgt hpromote (.inr hnonneg)
    · exact hpromote
    · exact contains_of_size_eq (by omega) (.inr (by simpa using hsigned)) hpromote hnonneg

/-! ### Counting up -/

/-- The increment of a variable of the type. -/
def succ (t : IntType) (i : ℤ) : ℤ := t.wrap (i + 1)

lemma contains_iterate (hi : t.Contains i) (n : ℕ) : t.Contains (t.succ^[n] i) := by
  induction n generalizing i with
  | zero => exact hi
  | succ n ih => exact ih (t.contains_wrap _)

lemma iterate_add (n : ℕ) (hi : t.Contains i) (hn : i + n ≤ t.max) : t.succ^[n] i = i + n := by
  induction n with
  | zero => simp
  | succ n ih =>
    have hnext : t.Contains (i + n + 1) := ⟨by linarith [hi.1], by push_cast at hn; linarith⟩
    rw [Function.iterate_succ_apply', ih (by push_cast at hn; linarith)]
    unfold succ
    rw [wrap_of_contains hnext]
    push_cast
    ring

lemma iterate_max (hi : t.Contains i) : t.succ^[(t.max - i).toNat] i = t.max := by
  have hle := hi.2
  have hcast : ((t.max - i).toNat : ℤ) = t.max - i := Int.toNat_of_nonneg (by omega)
  rw [iterate_add _ hi (by omega), hcast]
  ring

/-- **A property that holds of all smaller values holds of the counter for ever iff it holds of
the largest value of the type.** -/
theorem forever_iff {p : ℤ → Prop} (hp : ∀ i j, i ≤ j → p j → p i) (hi : t.Contains i) :
    (∀ n, p (t.succ^[n] i)) ↔ p t.max := by
  constructor
  · intro h
    have hmax := h (t.max - i).toNat
    rwa [iterate_max hi] at hmax
  · intro h n
    exact hp _ _ (contains_iterate hi n).2 h

end IntType

end DriverQueries.IntegerTypes
