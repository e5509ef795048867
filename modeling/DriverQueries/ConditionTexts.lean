import Mathlib.Data.Int.Notation
import Mathlib.Data.List.Basic

/-!
Conditions of `_When_` annotations and the texts they are written as.

A condition compares parameters, or their lowest bits, with constants. It is written with any
gaps between its words, and with brackets where they are needed or wanted.
-/

namespace DriverQueries.ConditionTexts

/-! ### Words -/

/-- The characters of `\w`. -/
def word (c : Char) : Bool := c.isAlphanum || c == '_'

/-- The characters of `\s`. -/
def space (c : Char) : Bool := c ∈ [' ', '\t', '\n', '\x0b', '\x0c', '\r']

abbrev Gap := {s : List Char // ∀ c ∈ s, space c}

abbrev Identifier := {s : List Char // s ≠ [] ∧ ∀ c ∈ s, word c}

inductive Op
  | eq | ne
  deriving DecidableEq

def Op.text : Op → List Char
  | .eq => ['=', '=']
  | .ne => ['!', '=']

/-- A decimal numeral has no leading zero, except for zero itself. -/
abbrev Decimal := {s : List Char // s = ['0'] ∨ (s ≠ [] ∧ s.head? ≠ some '0' ∧ ∀ c ∈ s, c.isDigit)}

def hexDigits : List Char := "0123456789abcdefABCDEF".toList

abbrev HexDigits := {s : List Char // s ≠ [] ∧ ∀ c ∈ s, c ∈ hexDigits}

inductive Constant
  | decimal (digits : Decimal)
  | hexadecimal (upper : Bool) (digits : HexDigits)
  | null

def hexValue (c : Char) : ℕ :=
  if c.isDigit then c.toNat - 48
  else if 'a'.toNat ≤ c.toNat then c.toNat - 87
  else c.toNat - 55

namespace Constant

def text : Constant → List Char
  | decimal digits => digits.1
  | hexadecimal upper digits => '0' :: (if upper then 'X' else 'x') :: digits.1
  | null => "NULL".toList

def value : Constant → ℕ
  | decimal digits => digits.1.foldl (fun n c => 10 * n + (c.toNat - 48)) 0
  | hexadecimal _ digits => digits.1.foldl (fun n c => 16 * n + hexValue c) 0
  | null => 0

/-- The constant is written with a zero first. -/
def LeadingZero (c : Constant) : Prop := c.text.head? = some '0'

instance (c : Constant) : Decidable c.LeadingZero := inferInstanceAs (Decidable (_ = _))

end Constant

/-! ### Conditions -/

/-- A parameter, or its lowest bit `(p & 0x1)` with the gaps in the brackets. -/
inductive Operand
  | param (p : Identifier)
  | masked (p : Identifier) (g₁ g₂ g₃ g₄ : Gap)

namespace Operand

def name : Operand → List Char
  | param p => p.1
  | masked p _ _ _ _ => p.1

def text : Operand → List Char
  | param p => p.1
  | masked p g₁ g₂ g₃ g₄ =>
    '(' :: (g₁.1 ++ p.1 ++ g₂.1 ++ '&' :: (g₃.1 ++ "0x1".toList ++ g₄.1 ++ [')']))

def eval (v : List Char → ℤ) : Operand → ℤ
  | param p => v p.1
  | masked p _ _ _ _ => v p.1 % 2

end Operand

structure Comparison where
  operand : Operand
  beforeOp : Gap
  op : Op
  afterOp : Gap
  constant : Constant

namespace Comparison

def text (a : Comparison) : List Char :=
  a.operand.text ++ (a.beforeOp.1 ++ (a.op.text ++ (a.afterOp.1 ++ a.constant.text)))

def eval (v : List Char → ℤ) (a : Comparison) : Bool :=
  match a.op with
  | .eq => a.operand.eval v = a.constant.value
  | .ne => a.operand.eval v ≠ a.constant.value

end Comparison

inductive Condition
  | compare (a : Comparison)
  | both (c : Condition) (g g' : Gap) (d : Condition)
  | either (c : Condition) (g g' : Gap) (d : Condition)
  | brackets (g : Gap) (c : Condition) (g' : Gap)

/-- A character between comparisons. -/
abbrev Sign := {c : Char // c ∈ ['(', ')', '&', '|'] ∨ space c}

/-- A condition is written as comparisons with single characters between them. -/
inductive Piece
  | sign (c : Sign)
  | comparison (a : Comparison)

def Piece.text : Piece → List Char
  | sign c => [c.1]
  | comparison a => a.text

def gapPieces (g : Gap) : List Piece :=
  g.1.attach.map fun c => .sign ⟨c.1, Or.inr (g.2 c.1 c.2)⟩

def openBracket : Piece := .sign ⟨'(', by decide⟩
def closeBracket : Piece := .sign ⟨')', by decide⟩
def ampersand : Piece := .sign ⟨'&', by decide⟩
def bar : Piece := .sign ⟨'|', by decide⟩

namespace Condition

/-- An alternative is in brackets where it is part of a conjunction. -/
def bracketed (c : Condition) (ps : List Piece) : List Piece :=
  match c with
  | either _ _ _ _ => openBracket :: (ps ++ [closeBracket])
  | _ => ps

def pieces : Condition → List Piece
  | compare a => [.comparison a]
  | both c g g' d =>
    c.bracketed c.pieces ++ gapPieces g ++ [ampersand, ampersand] ++ gapPieces g' ++
      d.bracketed d.pieces
  | either c g g' d => c.pieces ++ gapPieces g ++ [bar, bar] ++ gapPieces g' ++ d.pieces
  | brackets g c g' => openBracket :: (gapPieces g ++ c.pieces ++ gapPieces g' ++ [closeBracket])

def eval (v : List Char → ℤ) : Condition → Bool
  | compare a => a.eval v
  | both c _ _ d => c.eval v && d.eval v
  | either c _ _ d => c.eval v || d.eval v
  | brackets _ c _ => c.eval v

def names : Condition → List (List Char)
  | compare a => [a.operand.name]
  | both c _ _ d => c.names ++ d.names
  | either c _ _ d => c.names ++ d.names
  | brackets _ c _ => c.names

end Condition

def text (ps : List Piece) : List Char := ps.flatMap Piece.text

def Condition.text (c : Condition) : List Char := ConditionTexts.text c.pieces

@[simp] lemma text_nil : text [] = [] := rfl

@[simp] lemma text_sign (c : Sign) (ps : List Piece) : text (.sign c :: ps) = c.1 :: text ps := rfl

@[simp] lemma text_comparison (a : Comparison) (ps : List Piece) :
    text (.comparison a :: ps) = a.text ++ text ps := rfl

/-! ### What the characters are -/

lemma forall_mem_of_all {q : Char → Prop} [DecidablePred q] {s : List Char}
    (h : s.all (fun c => q c) = true) : ∀ c ∈ s, q c := by
  simpa using h

lemma word_eq_false : ∀ c ∈ ['(', ')', '&', '|', '=', '!', ' ', '\t', '\n', '\x0b', '\x0c', '\r'],
    word c = false :=
  forall_mem_of_all rfl

lemma of_space {q : Char → Prop} [DecidablePred q]
    (h : [' ', '\t', '\n', '\x0b', '\x0c', '\r'].all (fun c => q c) = true) {c : Char}
    (hc : space c = true) : q c :=
  forall_mem_of_all h c (by simpa [space] using hc)

lemma word_of_space {c : Char} (h : space c = true) : word c = false :=
  of_space (q := fun c => word c = false) rfl h

lemma space_eq_false {q : Char → Bool} (hq : ∀ {c}, space c = true → q c = false) {c : Char}
    (hc : q c = true) : space c = false := by
  by_contra hspace
  rw [Bool.not_eq_false] at hspace
  rw [hq hspace] at hc
  exact Bool.noConfusion hc

lemma space_of_word {c : Char} (h : word c = true) : space c = false :=
  space_eq_false word_of_space h

lemma Sign.word_eq_false (c : Sign) : word c.1 = false := by
  obtain ⟨c, hc | hc⟩ := c
  · refine ConditionTexts.word_eq_false c ?_
    simp only [List.mem_cons] at hc ⊢
    tauto
  · exact word_of_space hc

lemma Op.exists_text (op : Op) : ∃ x, op.text = [x, '='] ∧ (x = '=' ∨ x = '!') := by
  cases op with
  | eq => exact ⟨'=', rfl, Or.inl rfl⟩
  | ne => exact ⟨'!', rfl, Or.inr rfl⟩

lemma word_of_opSign {x : Char} (h : x = '=' ∨ x = '!') : word x = false := by
  obtain rfl | rfl := h <;> decide

lemma space_of_opSign {x : Char} (h : x = '=' ∨ x = '!') : space x = false := by
  obtain rfl | rfl := h <;> decide

lemma Op.text_injective : Function.Injective Op.text := by
  intro op op' h
  cases op <;> cases op' <;> simp [text] at h ⊢

lemma gap_head (g : Gap) {x : Char} {s : List Char} (hx : word x = false) :
    ∀ c ∈ (g.1 ++ x :: s).head?, word c = false := by
  intro c hc
  cases hg : g.1 with
  | nil =>
    obtain rfl : x = c := by simpa [hg] using hc
    exact hx
  | cons d t =>
    obtain rfl : d = c := by simpa [hg] using hc
    exact word_of_space (g.2 d (by simp [hg]))

lemma word_of_digit {c : Char} (h : c.isDigit = true) : word c = true := by
  simp [word, Char.isAlphanum, h]

namespace Constant

variable {k : Constant}

lemma text_ne_nil (k : Constant) : k.text ≠ [] := by
  cases k with
  | decimal digits =>
    rcases digits.2 with h | h
    · simp [text, h]
    · exact h.1
  | hexadecimal upper digits => simp [text]
  | null => simp [text]

lemma isDigit_of_mem (digits : Decimal) {c : Char} (hc : c ∈ digits.1) : c.isDigit = true := by
  rcases digits.2 with h | h
  · rw [h, List.mem_singleton] at hc
    rw [hc]
    decide
  · exact h.2.2 c hc

lemma word_of_mem {c : Char} (hc : c ∈ k.text) : word c = true := by
  cases k with
  | decimal digits => exact word_of_digit (isDigit_of_mem digits hc)
  | hexadecimal upper digits =>
    have hdigits : ∀ c ∈ hexDigits, word c = true := forall_mem_of_all rfl
    simp only [text, List.mem_cons] at hc
    rcases hc with rfl | rfl | hc
    · decide
    · cases upper <;> decide
    · exact hdigits c (digits.2.2 c hc)
  | null =>
    have hnull : ∀ c ∈ "NULL".toList, word c = true := forall_mem_of_all rfl
    exact hnull c hc

lemma value_of_zero (h : k.text = ['0']) : k.value = 0 := by
  cases k with
  | decimal digits =>
    have hdigits : digits.1 = ['0'] := h
    simp [value, hdigits]
  | hexadecimal upper digits => simp [text] at h
  | null => simp [text] at h

lemma value_of_null (h : k.text = "NULL".toList) : k.value = 0 := by
  cases k with
  | decimal digits =>
    have hN : 'N' ∈ digits.1 := by
      change 'N' ∈ (Constant.decimal digits).text
      simp [h]
    exact absurd (isDigit_of_mem digits hN) (by decide)
  | hexadecimal upper digits => simp [text] at h
  | null => rfl

lemma le_foldl_digits (s : List Char) (n : ℕ) :
    n ≤ s.foldl (fun n c => 10 * n + (c.toNat - 48)) n := by
  induction s generalizing n with
  | nil => exact Nat.le_refl n
  | cons c s ih =>
    have := ih (10 * n + (c.toNat - 48))
    simp only [List.foldl_cons]
    omega

lemma value_ne_zero {c : Char} {s : List Char} (h : k.text = c :: s) (hc : c.isDigit)
    (hne : c ≠ '0') : k.value ≠ 0 := by
  have hpos : 0 < c.toNat - 48 := by
    simp only [Char.isDigit, Bool.and_eq_true, decide_eq_true_eq, ge_iff_le,
      UInt32.le_iff_toNat_le] at hc
    have hnat : c.toNat ≠ 48 := fun heq => hne (Char.ext (UInt32.toNat_inj.mp heq))
    have : c.toNat = c.val.toNat := rfl
    have : '0'.val.toNat = 48 := rfl
    omega
  cases k with
  | decimal digits =>
    have hdigits : digits.1 = c :: s := h
    have hle := le_foldl_digits s (10 * 0 + (c.toNat - 48))
    simp only [value, hdigits, List.foldl_cons]
    omega
  | hexadecimal upper digits =>
    simp only [text, List.cons.injEq] at h
    exact absurd h.1.symm hne
  | null =>
    have hN : 'N' = c := (List.cons.inj h).1
    rw [← hN] at hc
    exact absurd hc (by decide)

end Constant

lemma Piece.exists_not_word (piece : Piece) : ∃ c ∈ piece.text, word c = false := by
  cases piece with
  | sign c => exact ⟨c.1, List.mem_singleton_self _, c.word_eq_false⟩
  | comparison a =>
    refine ⟨'=', ?_, by decide⟩
    obtain ⟨x, hx, -⟩ := a.op.exists_text
    simp [Piece.text, Comparison.text, hx]

lemma Condition.eval_congr {c : Condition} {v v' : List Char → ℤ}
    (h : ∀ p ∈ c.names, v p = v' p) : c.eval v = c.eval v' := by
  induction c with
  | compare a =>
    have hname : v a.operand.name = v' a.operand.name := h _ (by simp [names])
    have hoperand : a.operand.eval v = a.operand.eval v' := by
      cases hop : a.operand <;> simp_all [Operand.eval, Operand.name]
    simp only [eval, Comparison.eval, hoperand]
  | both c g g' d ihc ihd =>
    rw [eval, eval, ihc fun p hp => h p (by simp [names, hp]),
      ihd fun p hp => h p (by simp [names, hp])]
  | either c g g' d ihc ihd =>
    rw [eval, eval, ihc fun p hp => h p (by simp [names, hp]),
      ihd fun p hp => h p (by simp [names, hp])]
  | brackets g c g' ih => exact ih h

lemma gapPieces_comparison {g : Gap} {a : Comparison} : .comparison a ∉ gapPieces g := by
  simp [gapPieces]

lemma Condition.name_mem_of_piece {c : Condition} {a : Comparison}
    (h : .comparison a ∈ c.pieces) : a.operand.name ∈ c.names := by
  have hbracketed : ∀ (c : Condition) (ps : List Piece),
      .comparison a ∈ c.bracketed ps → .comparison a ∈ ps := by
    intro c ps h
    cases c <;> simpa [bracketed, openBracket, closeBracket] using h
  induction c with
  | compare b =>
    obtain rfl : a = b := by simpa [pieces] using h
    simp [names]
  | both c g g' d ihc ihd =>
    simp only [pieces, List.mem_append, gapPieces_comparison, ampersand, List.mem_cons,
      reduceCtorEq, List.not_mem_nil, or_false] at h
    simp only [names, List.mem_append]
    exact h.imp (fun h => ihc (hbracketed c _ h)) fun h => ihd (hbracketed d _ h)
  | either c g g' d ihc ihd =>
    simp only [pieces, List.mem_append, gapPieces_comparison, bar, List.mem_cons,
      reduceCtorEq, List.not_mem_nil, or_false] at h
    simp only [names, List.mem_append]
    exact h.imp ihc ihd
  | brackets g c g' ih =>
    simp only [pieces, List.mem_append, gapPieces_comparison, openBracket, closeBracket,
      List.mem_cons, reduceCtorEq, List.not_mem_nil, or_false, false_or] at h
    exact ih h

/-- Only a single comparison is written without signs. -/
lemma Condition.of_pieces_singleton {c : Condition} {a : Comparison}
    (h : c.pieces = [.comparison a]) : c = .compare a := by
  have hlength := congrArg List.length h
  cases c with
  | compare b =>
    obtain rfl : b = a := by simpa [pieces] using h
    rfl
  | both c g g' d =>
    simp only [pieces, List.length_append, List.length_cons, List.length_nil] at hlength
    omega
  | either c g g' d =>
    simp only [pieces, List.length_append, List.length_cons, List.length_nil] at hlength
    omega
  | brackets g c g' => simp [pieces] at hlength

end DriverQueries.ConditionTexts
