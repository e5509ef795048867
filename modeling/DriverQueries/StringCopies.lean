import DriverQueries.CopyRules
import DriverQueries.IntegerTypes
import DriverQueries.Text

/-!
Limits of string copies.

A function that copies a string takes a limit for the number of its characters. The query reports
limits that are larger than an array that is copied to, or that are computed from the size of what
is copied. It computes with 32-bit numbers and does not look at conversions. Here it is shown that
a reported limit never keeps a string that is too long for the destination from being written past
its end, and that the constant limits that are reported are those that do not fit.
-/

namespace DriverQueries.StringCopies

open DriverQueries.Text DriverQueries.IntegerTypes DriverQueries.CopyRules

/-! ### Expressions -/

/-- `sizeof` of an expression, with its value, or the length of a string. -/
inductive BufferSizeExpr (E : Type)
  | sizeof (arg : E) (value : ℕ)
  | strlen (arg : E)
  deriving DecidableEq

def BufferSizeExpr.getArg {E : Type} : BufferSizeExpr E → E
  | .sizeof arg _ | .strlen arg => arg

/-- An integer expression, with the explicit conversions in it. -/
inductive Expr (E : Type)
  | size (b : BufferSizeExpr E)
  | literal (t : IntType) (value : ℤ)
  | other (t : IntType) (number : ℕ)
  | add (left right : Expr E)
  | sub (left right : Expr E)
  | cast (t : IntType) (e : Expr E)
  deriving DecidableEq

namespace Expr

variable {E : Type} (size_t : IntType)

def getType : Expr E → IntType
  | .size _ => size_t
  | .literal t _ | .other t _ | .cast t _ => t
  | .add left right | .sub left right => (getType left).usual (getType right)

def unconverted : Expr E → Expr E
  | .cast _ e => unconverted e
  | e => e

/-- The result of an operation in the type. The overflow of a signed one is undefined. -/
def result (t : IntType) (i : ℤ) : Option ℤ :=
  if t.signed ∧ ¬ t.Contains i then none else some (t.wrap i)

def getValue : Expr E → Option ℤ
  | .size (.sizeof _ value) => some (size_t.wrap value)
  | .size (.strlen _) => none
  | .literal t value => some (t.wrap value)
  | .other _ _ => none
  | .cast t e => (getValue e).map t.wrap
  | .add left right => do
    let t := (getType size_t left).usual (getType size_t right)
    result t (t.wrap (← getValue left) + t.wrap (← getValue right))
  | .sub left right => do
    let t := (getType size_t left).usual (getType size_t right)
    result t (t.wrap (← getValue left) - t.wrap (← getValue right))

/-- `e.getValue().toInt()`, for the expression without its conversions. -/
def toInt (e : Expr E) : Option ℤ := (getValue size_t (unconverted e)).bind int32

def sizes : Expr E → List (BufferSizeExpr E)
  | .size b => [b]
  | .literal _ _ | .other _ _ => []
  | .add left right | .sub left right => sizes left ++ sizes right
  | .cast _ e => sizes e

/-- What the expression adds to a size in it. Operands are taken without their conversions. -/
def isSizePlus : Expr E → List (BufferSizeExpr E × ℤ)
  | .size b => [(b, 0)]
  | .literal _ _ | .other _ _ => []
  | .cast _ e => isSizePlus e
  | .add left right =>
    ((isSizePlus left).flatMap fun p =>
      (toInt size_t right).toList.map fun n => (p.1, IntType.int.wrap (p.2 + n))) ++
    (isSizePlus right).flatMap fun p =>
      (toInt size_t left).toList.map fun n => (p.1, IntType.int.wrap (p.2 + n))
  | .sub left right =>
    (isSizePlus left).flatMap fun p =>
      (toInt size_t right).toList.map fun n => (p.1, IntType.int.wrap (p.2 - n))

end Expr

/-! ### The query -/

/-- What is known of the expressions for buffers. Definitions are those that an expression is a use
of, with the values they assign. -/
structure Buffers (E : Type) where
  isAccess : E → Bool
  arrayType : E → Option ℕ
  newArray : E → Option ℕ
  getDefiningValue : E → List E
  globalValueNumber : E → ℕ

structure StrcpyFunction where
  getName : String
  getParamSize : ℕ
  charSize : ℕ

/-- A call of a function that copies strings, with the arguments for its parameters. -/
structure FunctionCall (E : Type) where
  f : StrcpyFunction
  copyDest : E
  copySource : E
  limit : Expr E

variable {E : Type} (size_t : IntType) (B : Buffers E)

def nthString : ℕ → Option String
  | 0 => some "first"
  | 1 => some "second"
  | 2 => some "third"
  | _ => none

/-- The size of an array that the expression is, or is initialized with. -/
def arrayExprFixedSize (e : E) (size : ℕ) : Prop :=
  Derives (fun e size => B.arrayType e = some size ∨ B.newArray e = some size)
    (fun e value => B.arrayType e = none ∧ value ∈ B.getDefiningValue e) e size

/-- The limit is larger than the array that is copied to. -/
def FixedSized (fc : FunctionCall E) (n : ℤ) : Prop :=
  ∃ size, arrayExprFixedSize B fc.copyDest size ∧
    (size : ℤ) < IntType.int.wrap (fc.f.charSize * n) ∧ size ≠ 0

/-- The limit is computed from the size of what is copied. -/
def VariableSized (fc : FunctionCall E) : Prop :=
  ∃ sizeExpr plus, sizeExpr ∈ fc.limit.sizes ∧ (sizeExpr, plus) ∈ fc.limit.isSizePlus size_t ∧
    0 ≤ plus ∧ B.isAccess sizeExpr.getArg ∧
    B.globalValueNumber fc.copySource = B.globalValueNumber sizeExpr.getArg ∧
    B.globalValueNumber fc.copyDest ≠ B.globalValueNumber sizeExpr.getArg

def message (fc : FunctionCall E) : Option String :=
  (nthString fc.f.getParamSize).map fun nth =>
    "Potentially unsafe call to " ++ fc.f.getName ++ "; " ++ nth ++
      " argument should be size of destination."

def StrncpyFlippedArgs (fc : FunctionCall E) (text : String) : Prop :=
  B.isAccess fc.copyDest ∧ B.isAccess fc.copySource ∧
    (match fc.limit.toInt size_t with
      | some n => FixedSized B fc n
      | none => VariableSized size_t B fc) ∧
    message fc = some text

/-! ### Copies -/

/-- The lengths of the strings and the sizes in bytes of the buffers that expressions point to, and
the values of other expressions. -/
structure State (E : Type) where
  length : E → ℕ
  capacity : E → ℕ
  value : ℕ → ℤ

variable (s : State E)

/-- A size, as it is. -/
def State.measure : BufferSizeExpr E → ℕ
  | .sizeof _ value => value
  | .strlen arg => s.length arg

def eval : Expr E → Option ℤ
  | .size b => some (size_t.wrap (s.measure b))
  | .literal t value => some (t.wrap value)
  | .other t number => some (t.wrap (s.value number))
  | .cast t e => (eval e).map t.wrap
  | .add left right => do
    let t := (left.getType size_t).usual (right.getType size_t)
    Expr.result t (t.wrap (← eval left) + t.wrap (← eval right))
  | .sub left right => do
    let t := (left.getType size_t).usual (right.getType size_t)
    Expr.result t (t.wrap (← eval left) - t.wrap (← eval right))

/-- The limit as it is passed. -/
def limit (fc : FunctionCall E) : Option ℕ :=
  (eval size_t s fc.limit).map fun v => (size_t.wrap v).toNat

/-- The state agrees with what is known of the buffers. -/
structure Agrees : Prop where
  array : ∀ e size, B.arrayType e = some size ∨ B.newArray e = some size → s.capacity e = size
  defining : ∀ e, ∀ value ∈ B.getDefiningValue e, s.capacity e = s.capacity value
  valueNumber : ∀ e e', B.globalValueNumber e = B.globalValueNumber e' → s.length e = s.length e'

/-- Explicit conversions are to types of 32 bits at least. -/
def Wide : Expr E → Prop
  | .size _ | .literal _ _ | .other _ _ => True
  | .cast t e => 4 ≤ t.size ∧ Wide e
  | .add left right | .sub left right => Wide left ∧ Wide right

/-! ### Values modulo 2 ^ 32 -/

variable {size_t B s} {e left right : Expr E} {b : BufferSizeExpr E} {fc : FunctionCall E}
  {t : IntType} {i j n p v : ℤ} {size : ℕ}

lemma modEq_wrap (ht : 4 ≤ t.size) (i : ℤ) : t.wrap i ≡ i [ZMOD 2 ^ 32] :=
  IntType.wrap_modEq (by omega) i

lemma modEq_result (ht : 4 ≤ t.size) (h : Expr.result t i = some v) : v ≡ i [ZMOD 2 ^ 32] := by
  unfold Expr.result at h
  split_ifs at h
  exact Option.some.inj h ▸ modEq_wrap ht i

lemma le_of_modEq (hi : 0 ≤ i) (hlt : i < 2 ^ 32) (hj : 0 ≤ j) (h : j ≡ i [ZMOD 2 ^ 32]) :
    i ≤ j := by
  have hmod : j % 2 ^ 32 = i := Eq.trans h (Int.emod_eq_of_lt hi hlt)
  omega

lemma eval_add (h : eval size_t s (.add left right) = some v) :
    ∃ x y, eval size_t s left = some x ∧ eval size_t s right = some y ∧
      v ≡ x + y [ZMOD 2 ^ 32] := by
  have ht := IntType.four_le_usual (left.getType size_t) (right.getType size_t)
  simp only [eval, Option.bind_eq_bind, Option.bind_eq_some_iff] at h
  obtain ⟨x, hx, y, hy, hv⟩ := h
  exact ⟨x, y, hx, hy, (modEq_result ht hv).trans ((modEq_wrap ht x).add (modEq_wrap ht y))⟩

lemma eval_sub (h : eval size_t s (.sub left right) = some v) :
    ∃ x y, eval size_t s left = some x ∧ eval size_t s right = some y ∧
      v ≡ x - y [ZMOD 2 ^ 32] := by
  have ht := IntType.four_le_usual (left.getType size_t) (right.getType size_t)
  simp only [eval, Option.bind_eq_bind, Option.bind_eq_some_iff] at h
  obtain ⟨x, hx, y, hy, hv⟩ := h
  exact ⟨x, y, hx, hy, (modEq_result ht hv).trans ((modEq_wrap ht x).sub (modEq_wrap ht y))⟩

lemma eval_of_getValue (h : e.getValue size_t = some v) : eval size_t s e = some v := by
  induction e generalizing v with
  | size b => cases b <;> simp_all [Expr.getValue, eval, State.measure]
  | literal t value => exact h
  | other t number => simp [Expr.getValue] at h
  | cast t e ih =>
    obtain ⟨x, hx, rfl⟩ := Option.map_eq_some_iff.mp h
    simp [eval, ih hx]
  | add left right ihl ihr =>
    simp only [Expr.getValue, Option.bind_eq_bind, Option.bind_eq_some_iff] at h
    obtain ⟨x, hx, y, hy, hv⟩ := h
    simp [eval, ihl hx, ihr hy, hv]
  | sub left right ihl ihr =>
    simp only [Expr.getValue, Option.bind_eq_bind, Option.bind_eq_some_iff] at h
    obtain ⟨x, hx, y, hy, hv⟩ := h
    simp [eval, ihl hx, ihr hy, hv]

lemma eval_unconverted (hwide : Wide e) (h : eval size_t s e = some v) :
    ∃ x, eval size_t s e.unconverted = some x ∧ v ≡ x [ZMOD 2 ^ 32] := by
  induction e generalizing v with
  | cast t e ih =>
    obtain ⟨y, hy, rfl⟩ := Option.map_eq_some_iff.mp h
    obtain ⟨x, hx, hmod⟩ := ih hwide.2 hy
    exact ⟨x, hx, (modEq_wrap hwide.1 y).trans hmod⟩
  | size | literal | other | add | sub => exact ⟨v, h, rfl⟩

lemma int32_eq_some (h : int32 i = some n) : i = n := by
  unfold int32 at h
  split_ifs at h
  exact Option.some.inj h

lemma modEq_of_toInt (hwide : Wide e) (hn : e.toInt size_t = some n)
    (h : eval size_t s e = some v) : v ≡ n [ZMOD 2 ^ 32] := by
  obtain ⟨x, hx, hmod⟩ := eval_unconverted hwide h
  obtain ⟨y, hy, hyn⟩ := Option.bind_eq_some_iff.mp hn
  rw [eval_of_getValue hy, Option.some.injEq] at hx
  rw [← int32_eq_some hyn, hx]
  exact hmod

lemma int_wrap_lt (i : ℤ) : IntType.int.wrap i < 2 ^ 31 :=
  (IntType.int.contains_wrap i).2.trans_lt (by decide)

lemma isSizePlus_lt (h : (b, p) ∈ e.isSizePlus size_t) : p < 2 ^ 31 := by
  induction e generalizing p with
  | size b' =>
    obtain ⟨-, rfl⟩ := Prod.mk.inj (List.mem_singleton.mp h)
    norm_num
  | literal | other => exact absurd h (List.not_mem_nil)
  | cast t e ih => exact ih h
  | add left right =>
    simp only [Expr.isSizePlus, List.mem_append, List.mem_flatMap, List.mem_map,
      Prod.mk.injEq] at h
    rcases h with ⟨-, -, n, -, -, rfl⟩ | ⟨-, -, n, -, -, rfl⟩ <;> exact int_wrap_lt _
  | sub left right =>
    simp only [Expr.isSizePlus, List.mem_flatMap, List.mem_map, Prod.mk.injEq] at h
    obtain ⟨-, -, n, -, -, rfl⟩ := h
    exact int_wrap_lt _

/-- **An expression has the value of the size in it and what the query takes to be added,** modulo
2 ^ 32, whatever overflows on the way. -/
theorem modEq_of_isSizePlus (hsize : 4 ≤ size_t.size) (hwide : Wide e)
    (hp : (b, p) ∈ e.isSizePlus size_t) (h : eval size_t s e = some v) :
    v ≡ s.measure b + p [ZMOD 2 ^ 32] := by
  have hint : ∀ i, IntType.int.wrap i ≡ i [ZMOD 2 ^ 32] := modEq_wrap le_rfl
  induction e generalizing p v with
  | size b' =>
    obtain ⟨rfl, rfl⟩ := Prod.mk.inj (List.mem_singleton.mp hp)
    obtain rfl := Option.some.inj h
    rw [add_zero]
    exact modEq_wrap hsize _
  | literal | other => exact absurd hp (List.not_mem_nil)
  | cast t e ih =>
    obtain ⟨x, hx, rfl⟩ := Option.map_eq_some_iff.mp h
    exact (modEq_wrap hwide.1 x).trans (ih hwide.2 hp hx)
  | add left right ihl ihr =>
    obtain ⟨x, y, hx, hy, hv⟩ := eval_add h
    simp only [Expr.isSizePlus, List.mem_append, List.mem_flatMap, List.mem_map, Prod.mk.injEq,
      Option.mem_toList] at hp
    rcases hp with ⟨⟨b', q⟩, hq, n, hn, rfl, rfl⟩ | ⟨⟨b', q⟩, hq, n, hn, rfl, rfl⟩
    · calc v ≡ x + y [ZMOD 2 ^ 32] := hv
        _ ≡ (s.measure b' + q) + n [ZMOD 2 ^ 32] :=
          (ihl hwide.1 hq hx).add (modEq_of_toInt hwide.2 hn hy)
        _ = s.measure b' + (q + n) := add_assoc _ _ _
        _ ≡ s.measure b' + IntType.int.wrap (q + n) [ZMOD 2 ^ 32] := (hint _).symm.add_left _
    · calc v ≡ x + y [ZMOD 2 ^ 32] := hv
        _ ≡ n + (s.measure b' + q) [ZMOD 2 ^ 32] :=
          (modEq_of_toInt hwide.1 hn hx).add (ihr hwide.2 hq hy)
        _ = s.measure b' + (q + n) := by ring
        _ ≡ s.measure b' + IntType.int.wrap (q + n) [ZMOD 2 ^ 32] := (hint _).symm.add_left _
  | sub left right ihl _ =>
    obtain ⟨x, y, hx, hy, hv⟩ := eval_sub h
    simp only [Expr.isSizePlus, List.mem_flatMap, List.mem_map, Prod.mk.injEq,
      Option.mem_toList] at hp
    obtain ⟨⟨b', q⟩, hq, n, hn, rfl, rfl⟩ := hp
    calc v ≡ x - y [ZMOD 2 ^ 32] := hv
      _ ≡ (s.measure b' + q) - n [ZMOD 2 ^ 32] :=
        (ihl hwide.1 hq hx).sub (modEq_of_toInt hwide.2 hn hy)
      _ = s.measure b' + (q - n) := by ring
      _ ≡ s.measure b' + IntType.int.wrap (q - n) [ZMOD 2 ^ 32] := (hint _).symm.add_left _

/-! ### Limits -/

lemma limit_eq_some (hunsigned : size_t.signed = false) {N : ℕ} (h : limit size_t s fc = some N) :
    ∃ v, eval size_t s fc.limit = some v ∧ (N : ℤ) = size_t.wrap v := by
  obtain ⟨v, hv, rfl⟩ := Option.map_eq_some_iff.mp h
  have hnonneg := (size_t.contains_wrap v).1
  rw [IntType.min_of_unsigned hunsigned] at hnonneg
  exact ⟨v, hv, Int.toNat_of_nonneg hnonneg⟩

lemma capacity_of_fixed (hs : Agrees B s) {e : E} (h : arrayExprFixedSize B e size) :
    s.capacity e = size := by
  unfold arrayExprFixedSize at h
  induction h with
  | arise h => exact hs.array _ _ h
  | copy h _ ih => exact (hs.defining _ _ h.2).trans ih

/-- A limit that is reported for a fixed size is past the end of the array. -/
lemma capacity_lt_of_fixed (hsize : 4 ≤ size_t.size) (hunsigned : size_t.signed = false)
    (hs : Agrees B s) (hwide : Wide fc.limit) {N : ℕ} (hN : limit size_t s fc = some N)
    (hn : fc.limit.toInt size_t = some n) (h : FixedSized B fc n) :
    s.capacity fc.copyDest < fc.f.charSize * N := by
  obtain ⟨size, hfixed, hlt, -⟩ := h
  obtain ⟨v, hv, hwrap⟩ := limit_eq_some hunsigned hN
  have hmod : (fc.f.charSize * N : ℤ) ≡ IntType.int.wrap (fc.f.charSize * n) [ZMOD 2 ^ 32] := by
    have hN' : (N : ℤ) ≡ n [ZMOD 2 ^ 32] :=
      hwrap ▸ (modEq_wrap hsize v).trans (modEq_of_toInt hwide hn hv)
    exact (hN'.mul_left _).trans (modEq_wrap le_rfl _).symm
  have hmax := int_wrap_lt (fc.f.charSize * n)
  have hle := le_of_modEq (by omega) (by omega) (by positivity) hmod
  rw [capacity_of_fixed hs hfixed]
  exact_mod_cast hlt.trans_le hle

lemma measure_le_of_variable (hsize : 4 ≤ size_t.size) (hunsigned : size_t.signed = false)
    (hwide : Wide fc.limit) {N : ℕ} (hN : limit size_t s fc = some N)
    (hb : (b, p) ∈ fc.limit.isSizePlus size_t) (hp : 0 ≤ p) (hsmall : s.measure b < 2 ^ 31) :
    s.measure b ≤ N := by
  obtain ⟨v, hv, hwrap⟩ := limit_eq_some hunsigned hN
  have hmod : (N : ℤ) ≡ s.measure b + p [ZMOD 2 ^ 32] :=
    hwrap ▸ (modEq_wrap hsize v).trans (modEq_of_isSizePlus hsize hwide hb hv)
  have hmax : p < 2 ^ 31 := isSizePlus_lt hb
  have hle := le_of_modEq (by omega) (by omega) (by positivity) hmod
  omega

/-- **A call that is reported writes past the end of its destination whenever the string is too long
for it**: the limit does not help. The function copies up to the limit or the end of the string at
least, and the buffers whose sizes the limit is computed from hold strings. -/
theorem overflows_of_reported (hsize : 4 ≤ size_t.size) (hunsigned : size_t.signed = false)
    (hs : Agrees B s) (hwide : Wide fc.limit)
    (hstrings : ∀ b ∈ fc.limit.sizes, s.length b.getArg ≤ s.measure b ∧ s.measure b < 2 ^ 31)
    {copied : ℕ → ℕ → ℕ} (hcopied : ∀ N length, min N length ≤ copied N length) {text : String}
    (h : StrncpyFlippedArgs size_t B fc text) {N : ℕ} (hN : limit size_t s fc = some N)
    (hlong : s.capacity fc.copyDest < fc.f.charSize * s.length fc.copySource) :
    s.capacity fc.copyDest < fc.f.charSize * copied N (s.length fc.copySource) := by
  have hmin : s.capacity fc.copyDest < fc.f.charSize * min N (s.length fc.copySource) := by
    obtain ⟨-, -, hreason, -⟩ := h
    cases hn : fc.limit.toInt size_t with
    | some n =>
      rw [hn] at hreason
      have hlimit := capacity_lt_of_fixed hsize hunsigned hs hwide hN hn hreason
      rcases min_choice N (s.length fc.copySource) with heq | heq <;> rwa [heq]
    | none =>
      rw [hn] at hreason
      obtain ⟨b, p, hb, hbp, hp, -, hsource, -⟩ := hreason
      have hmeasure := measure_le_of_variable hsize hunsigned hwide hN hbp hp (hstrings b hb).2
      have hlength := hs.valueNumber _ _ hsource
      have hle : s.length fc.copySource ≤ N := by
        rw [hlength]
        exact (hstrings b hb).1.trans hmeasure
      rwa [min_eq_right hle]
  exact hmin.trans_le (Nat.mul_le_mul_left _ (hcopied _ _))

/-- **A constant limit is reported iff so many characters do not fit into the array**, if it is a
32-bit number of bytes. -/
theorem reported_iff_not_fits (hsize : 4 ≤ size_t.size) (hunsigned : size_t.signed = false)
    (hs : Agrees B s) (haccess : B.isAccess fc.copyDest ∧ B.isAccess fc.copySource)
    (hindex : fc.f.getParamSize < 3) (hplain : fc.limit.unconverted = fc.limit)
    (hn : fc.limit.toInt size_t = some n) (hnonneg : 0 ≤ n) (hchar : 0 < fc.f.charSize)
    (hbytes : fc.f.charSize * n < 2 ^ 31) (hfixed : arrayExprFixedSize B fc.copyDest size)
    (hne : size ≠ 0) {N : ℕ} (hN : limit size_t s fc = some N) :
    (∃ text, StrncpyFlippedArgs size_t B fc text) ↔
      s.capacity fc.copyDest < fc.f.charSize * N := by
  have hle : n ≤ fc.f.charSize * n := le_mul_of_one_le_left hnonneg (by exact_mod_cast hchar)
  -- neither the conversion to `size_t` nor that of QL changes the limit
  have hN' : (N : ℤ) = n := by
    obtain ⟨v, hv, hwrap⟩ := limit_eq_some hunsigned hN
    obtain ⟨y, hy, hyn⟩ := Option.bind_eq_some_iff.mp hn
    have hcontains : size_t.Contains n :=
      IntType.contains_of_lt (t := .int) hsize hnonneg (hle.trans_lt hbytes)
    rw [hplain] at hy
    rw [eval_of_getValue hy, int32_eq_some hyn, Option.some.injEq] at hv
    rw [hwrap, ← hv, IntType.wrap_of_contains hcontains]
  have hbytes' : IntType.int.wrap (fc.f.charSize * n) = fc.f.charSize * n :=
    IntType.wrap_of_contains (IntType.contains_of_lt le_rfl (by positivity) hbytes)
  have htext : (message fc).isSome := by
    unfold message nthString
    have hk : fc.f.getParamSize = 0 ∨ fc.f.getParamSize = 1 ∨ fc.f.getParamSize = 2 := by omega
    rcases hk with hk | hk | hk <;> simp [hk]
  have hfits : FixedSized B fc n ↔ s.capacity fc.copyDest < fc.f.charSize * N := by
    unfold FixedSized
    rw [hbytes', ← hN']
    constructor
    · rintro ⟨size', hfixed', hlt, -⟩
      rw [capacity_of_fixed hs hfixed']
      exact_mod_cast hlt
    · intro hlt
      rw [capacity_of_fixed hs hfixed] at hlt
      exact ⟨size, hfixed, by exact_mod_cast hlt, hne⟩
  rw [← hfits]
  constructor
  · rintro ⟨text, -, -, hreason, -⟩
    rwa [hn] at hreason
  · intro hreason
    obtain ⟨text, htext⟩ := Option.isSome_iff_exists.mp htext
    exact ⟨text, haccess.1, haccess.2, by rwa [hn], htext⟩

/-! ### Examples -/

def arrayAndString : Buffers Bool where
  isAccess _ := true
  arrayType e := if e then none else some 8
  newArray _ := none
  getDefiningValue _ := []
  globalValueNumber e := if e then 1 else 0

/-- The string has twenty characters. -/
def twenty : State Bool where
  length e := if e then 20 else 0
  capacity e := if e then 21 else 8
  value _ := 0

def strncpy (limit : Expr Bool) : FunctionCall Bool where
  f := { getName := "strncpy", getParamSize := 2, charSize := 1 }
  copyDest := false
  copySource := true
  limit := limit

def size64 : IntType := { signed := false, size := 8 }

lemma twenty_agrees : Agrees arrayAndString twenty where
  array := by simp [arrayAndString, twenty]
  defining := by simp [arrayAndString]
  valueNumber := by decide

/-- `strncpy(array, string, strlen(string) + 1)`. -/
def strlenPlus : FunctionCall Bool := strncpy (.add (.size (.strlen true)) (.literal .int 1))

lemma strlenPlus_reported : StrncpyFlippedArgs size64 arrayAndString strlenPlus
    "Potentially unsafe call to strncpy; third argument should be size of destination." :=
  ⟨rfl, rfl, ⟨.strlen true, 1, by decide⟩, by decide⟩

lemma strlenPlus_wide : Wide strlenPlus.limit := ⟨trivial, trivial⟩

/-- `strncpy` fills up with zeros what it copies to. -/
theorem overflows_of_reported_strlenPlus :
    twenty.capacity false < 1 * (fun N _ => N : ℕ → ℕ → ℕ) 21 (twenty.length true) :=
  overflows_of_reported (by decide) rfl twenty_agrees strlenPlus_wide (by decide)
    (fun _ _ => min_le_left _ _) strlenPlus_reported (by decide) (by decide)

/-- `strncpy(array, string, 16)`. -/
def constant : FunctionCall Bool := strncpy (.literal .int 16)

theorem reported_iff_not_fits_constant :
    (∃ text, StrncpyFlippedArgs size64 arrayAndString constant text) ↔
      twenty.capacity false < 1 * 16 := by
  have hfixed : arrayExprFixedSize arrayAndString constant.copyDest 8 := .arise (.inl rfl)
  have hn : constant.limit.toInt size64 = some 16 := by decide
  exact reported_iff_not_fits (by decide) rfl twenty_agrees ⟨rfl, rfl⟩ (by decide) rfl hn
    (by decide) (by decide) (by decide) hfixed (by decide) (by decide)

end DriverQueries.StringCopies
