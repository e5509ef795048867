import Mathlib.Data.List.Infix
import Mathlib.Data.List.Range

/-!
The string operations of QL: pattern matching, searching, slicing and parsing.

A QL operation that has several results returns the list of them, and one that may have
no result returns an option. The facts below are about texts of the form `m(r)`: which
patterns they match, where a key that ends in its only bracket occurs in them, and what is
cut out between the brackets.
-/

namespace DriverQueries.Text

def anySuffix (f : List Char → Bool) : List Char → Bool
  | [] => f []
  | c :: s => f (c :: s) || anySuffix f s

/-- The pattern language of `matches`: `%` stands for any text, `_` for any character, and
a backslash makes the character after it stand for itself. -/
def like : List Char → List Char → Bool
  | [], s => s.isEmpty
  | '%' :: p, s => anySuffix (like p) s
  | '_' :: p, s => match s with
    | [] => false
    | _ :: s => like p s
  | '\\' :: c :: p, s => match s with
    | [] => false
    | d :: s => c == d && like p s
  | c :: p, s => match s with
    | [] => false
    | d :: s => c == d && like p s

def matchesPattern (s p : String) : Bool := like p.toList s.toList

/-- `s.indexOf(key)`: every offset at which `key` occurs. -/
def indexOf (key s : List Char) : List ℕ :=
  (List.range (s.length + 1)).filter fun i => key.isPrefixOf (s.drop i)

/-- `s.indexOf(key, n, start)`: the offset of the `n`th occurrence from `start` on. -/
def indexOfFrom (key : List Char) (n start : ℕ) (s : List Char) : Option ℕ :=
  ((indexOf key s).filter (start ≤ ·))[n]?

/-- `s.substring(i, j)`. -/
def substring (s : List Char) (i j : ℕ) : Option (List Char) :=
  if i ≤ j ∧ j ≤ s.length then some ((s.take j).drop i) else none

def natOfDigits : ℕ → List Char → Option ℕ
  | n, [] => some n
  | n, c :: s => if c.isDigit then natOfDigits (10 * n + (c.toNat - 48)) s else none

/-- An `int` of QL has 32 bits. -/
def int32 (i : ℤ) : Option ℤ := if -2147483648 ≤ i ∧ i ≤ 2147483647 then some i else none

/-- `s.toInt()`: the value of a decimal numeral, with no result for any other text. -/
def toInt (s : String) : Option ℤ :=
  match s.toList with
  | [] => none
  | ['-'] => none
  | '-' :: ds => (natOfDigits 0 ds).bind fun n => int32 (-n)
  | ds => (natOfDigits 0 ds).bind fun n => int32 n

example : toInt "31" = some 31 ∧ toInt "-1" = some (-1) ∧ toInt "NewIrql" = none := by decide

def decimal (n : ℕ) : List Char := Nat.toDigits 10 n

lemma decimal_injective : Function.Injective decimal := by
  intro m n h
  have hm : Nat.ofDigitChars 10 (decimal m) 0 = m := Nat.ofDigitChars_ten_toDigits
  rw [h] at hm
  exact hm.symm.trans Nat.ofDigitChars_ten_toDigits

/-- `toLowerCase`, of letters in ASCII. -/
def toLowerCase (s : String) : List Char := s.toList.map Char.toLower

/-! ### Patterns that end in `%` -/

/-- The text begins with the pattern, in which `_` stands for any character. -/
def wild : List Char → List Char → Bool
  | [], _ => true
  | _ :: _, [] => false
  | c :: p, d :: s => (c == '_' || c == d) && wild p s

lemma anySuffix_isEmpty (s : List Char) : anySuffix (like []) s = true := by
  induction s with
  | nil => rfl
  | cons c s ih => simp [anySuffix, ih]

lemma like_cons {c : Char} (h : c ≠ '%') (h' : c ≠ '\\') (p : List Char) (d : Char)
    (s : List Char) : like (c :: p) (d :: s) = ((c == '_' || c == d) && like p s) := by
  by_cases hc : c = '_'
  · subst hc; simp [like]
  · have hb : (c == '_') = false := by simpa using hc
    rw [like, hb, Bool.false_or] <;> simp_all

lemma like_cons_nil {c : Char} (h : c ≠ '%') (h' : c ≠ '\\') (p : List Char) :
    like (c :: p) [] = false := by
  by_cases hc : c = '_'
  · subst hc; simp [like]
  · rw [like] <;> simp_all

lemma like_prefix (p s : List Char) (hp : '%' ∉ p ∧ '\\' ∉ p) :
    like (p ++ ['%']) s = wild p s := by
  induction p generalizing s with
  | nil => simpa [like, wild] using anySuffix_isEmpty s
  | cons c p ih =>
    simp only [List.mem_cons, not_or] at hp
    obtain ⟨⟨hc, hp⟩, ⟨hc', hp'⟩⟩ := hp
    have h : c ≠ '%' := Ne.symm hc
    have h' : c ≠ '\\' := Ne.symm hc'
    cases s with
    | nil => simp [like_cons_nil h h', wild]
    | cons d s => simp [like_cons h h', wild, ih s ⟨hp, hp'⟩]

lemma wild_append (p s t : List Char) :
    wild p (s ++ t) = (wild (p.take s.length) s && wild (p.drop s.length) t) := by
  induction s generalizing p with
  | nil => simp [wild]
  | cons d s ih =>
    cases p with
    | nil => simp [wild]
    | cons c p => simp [wild, ih, Bool.and_assoc]

/-! ### Patterns with a plain end -/

/-- The text has no character with a meaning in patterns. -/
def Plain (q : List Char) : Prop := '%' ∉ q ∧ '_' ∉ q ∧ '\\' ∉ q

instance (q : List Char) : Decidable (Plain q) := inferInstanceAs (Decidable (_ ∧ _ ∧ _))

lemma plain_cons {c : Char} {q : List Char} :
    Plain (c :: q) ↔ (c ≠ '%' ∧ c ≠ '_' ∧ c ≠ '\\') ∧ Plain q := by
  simp only [Plain, List.mem_cons, not_or, ne_comm (b := c)]
  tauto

lemma exists_suffix_of_anySuffix {f : List Char → Bool} {s : List Char}
    (h : anySuffix f s = true) : ∃ t, t <:+ s ∧ f t = true := by
  induction s with
  | nil => exact ⟨[], List.suffix_rfl, h⟩
  | cons c s ih =>
    obtain h | h := Bool.or_eq_true_iff.mp h
    · exact ⟨c :: s, List.suffix_rfl, h⟩
    · obtain ⟨t, ht, hf⟩ := ih h
      exact ⟨t, ht.trans (List.suffix_cons c s), hf⟩

lemma like_plain {q s : List Char} (hq : Plain q) (h : like q s = true) : q = s := by
  induction q generalizing s with
  | nil => exact (List.isEmpty_iff.mp h).symm
  | cons c q ih =>
    obtain ⟨⟨hp, hu, he⟩, hq⟩ := plain_cons.mp hq
    cases s with
    | nil =>
      rw [like_cons_nil hp he] at h
      exact Bool.noConfusion h
    | cons d s =>
      rw [like_cons hp he, Bool.and_eq_true, Bool.or_eq_true, beq_iff_eq, beq_iff_eq,
        or_iff_right hu] at h
      rw [h.1, ih hq h.2]

lemma like_plain_iff {q s : List Char} (hq : Plain q) : like q s = true ↔ q = s := by
  refine ⟨like_plain hq, fun h => ?_⟩
  subst h
  induction q with
  | nil => rfl
  | cons c q ih =>
    obtain ⟨⟨hp, -, he⟩, hq⟩ := plain_cons.mp hq
    rw [like_cons hp he, ih hq]
    simp

/-- A plain end of a pattern is an end of every text that matches. -/
lemma like_suffix {q : List Char} (hq : Plain q) :
    ∀ p s : List Char, q <:+ p → like p s = true → q <:+ s
  | [], s, hqp, _ => by
    rw [List.suffix_nil.mp hqp]
    exact List.nil_suffix
  | c :: p, s, hqp, h => by
    obtain hall | htail := List.suffix_cons_iff.mp hqp
    · rw [like_plain hq (hall ▸ h)]
    by_cases hpercent : c = '%'
    · subst hpercent
      obtain ⟨t, ht, hmatch⟩ := exists_suffix_of_anySuffix (f := like p) (by simpa [like] using h)
      exact (like_suffix hq p t htail hmatch).trans ht
    by_cases hescape : c = '\\'
    · subst hescape
      match p, s with
      | [], s =>
        rw [List.suffix_nil.mp htail]
        exact List.nil_suffix
      | d :: p, [] => simp [like] at h
      | d :: p, e :: s =>
        simp only [like, Bool.and_eq_true, beq_iff_eq] at h
        obtain ⟨rfl, h⟩ := h
        obtain hall | htail := List.suffix_cons_iff.mp htail
        · rw [hall] at hq ⊢
          rw [like_plain (plain_cons.mp hq).2 h]
        · exact (like_suffix hq p s htail h).trans (List.suffix_cons d s)
    · match s with
      | [] =>
        rw [like_cons_nil hpercent hescape] at h
        exact Bool.noConfusion h
      | d :: s =>
        rw [like_cons hpercent hescape, Bool.and_eq_true] at h
        exact (like_suffix hq p s htail h.2).trans (List.suffix_cons d s)

/-! ### Segments of patterns -/

/-- What a plain segment of a pattern stands for. -/
lemma like_plain_append {q p s : List Char} (hq : Plain q) :
    like (q ++ p) s = true ↔ ∃ t, s = q ++ t ∧ like p t = true := by
  induction q generalizing s with
  | nil => simp
  | cons c q ih =>
    obtain ⟨⟨hp, hu, he⟩, hq⟩ := plain_cons.mp hq
    cases s with
    | nil => simp [like_cons_nil hp he]
    | cons d s =>
      rw [List.cons_append, like_cons hp he, Bool.and_eq_true, Bool.or_eq_true, beq_iff_eq,
        beq_iff_eq, or_iff_right hu, ih hq]
      refine ⟨fun ⟨hcd, t, ht, hlike⟩ => ⟨t, by simp [hcd, ht], hlike⟩, fun ⟨t, ht, hlike⟩ => ?_⟩
      obtain ⟨hdc, hs⟩ := List.cons.inj ht
      exact ⟨hdc.symm, t, hs, hlike⟩

lemma like_escaped {c : Char} {q s : List Char} : like ('\\' :: c :: q) (c :: s) = like q s := by
  simp [like]

lemma like_escaped_append {c : Char} {q p s : List Char} (hq : Plain q)
    (h : like ('\\' :: c :: (q ++ p)) s = true) : ∃ t, s = c :: q ++ t ∧ like p t = true := by
  cases s with
  | nil => simp [like] at h
  | cons d s =>
    rw [like, Bool.and_eq_true, beq_iff_eq] at h
    obtain ⟨rfl, h⟩ := h
    obtain ⟨t, rfl, ht⟩ := (like_plain_append hq).mp h
    exact ⟨t, rfl, ht⟩

lemma like_percent_append {p t : List Char} (h : like p t = true) (u : List Char) :
    like ('%' :: p) (u ++ t) = true := by
  rw [like]
  induction u with
  | nil =>
    cases t with
    | nil => exact h
    | cons c t => exact Bool.or_eq_true_iff.mpr (Or.inl h)
  | cons c u ih => exact Bool.or_eq_true_iff.mpr (Or.inr ih)

lemma like_percent_iff {q s : List Char} :
    like ('%' :: q) s = true ↔ ∃ t, t <:+ s ∧ like q t = true := by
  constructor
  · intro h
    rw [like] at h
    exact exists_suffix_of_anySuffix h
  · rintro ⟨t, ⟨u, rfl⟩, h⟩
    exact like_percent_append h u

lemma like_percent_all {s : List Char} : like ['%'] s = true :=
  like_percent_iff.mpr ⟨[], List.nil_suffix, rfl⟩

lemma like_infix_iff {q s : List Char} (hq : Plain q) :
    like ('%' :: q ++ ['%']) s = true ↔ q <:+: s := by
  rw [List.cons_append, like_percent_iff]
  constructor
  · rintro ⟨t, ⟨u, rfl⟩, h⟩
    obtain ⟨v, rfl, -⟩ := (like_plain_append hq).mp h
    exact ⟨u, v, by simp⟩
  · rintro ⟨u, v, rfl⟩
    exact ⟨q ++ v, ⟨u, by simp⟩, (like_plain_append hq).mpr ⟨v, rfl, like_percent_all⟩⟩

/-! ### Patterns without escapes -/

/-- A name without escapes and percent signs, as a pattern: an underscore stands for any
character. -/
lemma like_identifier_iff {q s : List Char} (hq : '%' ∉ q ∧ '\\' ∉ q) :
    like q s = true ↔ List.Forall₂ (fun c d => c = '_' ∨ c = d) q s := by
  induction q generalizing s with
  | nil => simp [like]
  | cons c q ih =>
    simp only [List.mem_cons, not_or] at hq
    cases s with
    | nil => simp [like_cons_nil (Ne.symm hq.1.1) (Ne.symm hq.2.1)]
    | cons d s =>
      simp [like_cons (Ne.symm hq.1.1) (Ne.symm hq.2.1), ih ⟨hq.1.2, hq.2.2⟩]

lemma anySuffix_concat {g h : List Char → Bool} {c : Char} (hnil : h [] = false)
    (hstep : ∀ t, h (t ++ [c]) = g t) (s : List Char) : anySuffix h (s ++ [c]) = anySuffix g s := by
  induction s with
  | nil => simpa [anySuffix, hnil] using hstep []
  | cons d s ih => simpa [anySuffix, ih] using congrArg (· || anySuffix g s) (hstep (d :: s))

lemma like_concat_nil {q : List Char} {c : Char} (hq : '\\' ∉ q) (hc : Plain [c]) :
    like (q ++ [c]) [] = false := by
  obtain ⟨⟨hpercent, -, hescape⟩, -⟩ := plain_cons.mp hc
  induction q with
  | nil => exact like_cons_nil hpercent hescape []
  | cons d q ih =>
    simp only [List.mem_cons, not_or] at hq
    by_cases hd : d = '%'
    · subst hd
      simpa [like, anySuffix] using ih hq.2
    · exact like_cons_nil hd (Ne.symm hq.1) _

/-- A plain character at the end of a pattern is the last of the text. -/
lemma like_concat {q : List Char} {c : Char} (hq : '\\' ∉ q) (hc : Plain [c]) (s : List Char) :
    like (q ++ [c]) (s ++ [c]) = like q s := by
  obtain ⟨⟨hpercent, -, hescape⟩, -⟩ := plain_cons.mp hc
  induction q generalizing s with
  | nil =>
    cases s with
    | nil => simp [like_cons hpercent hescape, like]
    | cons d s => simp [like_cons hpercent hescape, like]
  | cons d q ih =>
    simp only [List.mem_cons, not_or] at hq
    by_cases hd : d = '%'
    · subst hd
      rw [List.cons_append, like, like]
      exact anySuffix_concat (like_concat_nil hq.2 hc) (ih hq.2) s
    · cases s with
      | nil =>
        rw [List.nil_append, List.cons_append, like_cons hd (Ne.symm hq.1),
          like_cons_nil hd (Ne.symm hq.1), like_concat_nil hq.2 hc, Bool.and_false]
      | cons e s =>
        rw [List.cons_append, List.cons_append, like_cons hd (Ne.symm hq.1),
          like_cons hd (Ne.symm hq.1), ih hq.2]

lemma like_concat_iff {q s : List Char} {c : Char} (hq : '\\' ∉ q) (hc : Plain [c]) :
    like (q ++ [c]) s = true ↔ ∃ u, s = u ++ [c] ∧ like q u = true := by
  constructor
  · intro h
    obtain ⟨u, rfl⟩ := like_suffix hc _ _ (List.suffix_append q [c]) h
    exact ⟨u, rfl, by rwa [like_concat hq hc] at h⟩
  · rintro ⟨u, rfl, h⟩
    rwa [like_concat hq hc]

/-! ### Searching -/

@[simp] lemma mem_indexOf {key s : List Char} {i : ℕ} :
    i ∈ indexOf key s ↔ i ≤ s.length ∧ key <+: s.drop i := by
  simp only [indexOf, List.mem_filter, List.mem_range, Nat.lt_succ_iff,
    List.isPrefixOf_iff_prefix]

lemma le_of_prefix_drop {key s : List Char} {k : ℕ} (hkey : key ≠ []) (h : key <+: s.drop k) :
    k + key.length ≤ s.length := by
  have hlen := h.length_le
  have hpos := List.length_pos_of_ne_nil hkey
  rw [List.length_drop] at hlen
  omega

/-- Two texts without the separator are the same if one begins with the other up to it. -/
lemma snoc_prefix_iff {sep : Char} {n m r : List Char} (hn : sep ∉ n) (hm : sep ∉ m) :
    n ++ [sep] <+: m ++ sep :: r ↔ n = m := by
  constructor
  · rintro ⟨t, ht⟩
    have heq : n ++ sep :: t = m ++ sep :: r := by simpa using ht
    obtain ⟨u, hu, hu'⟩ | ⟨u, hu, hu'⟩ := List.append_eq_append_iff.mp heq
    · cases u with
      | nil => simpa using hu.symm
      | cons a u =>
        simp only [List.cons_append, List.cons.injEq] at hu'
        exact absurd (by rw [hu, hu'.1]; simp) hm
    · cases u with
      | nil => simpa using hu
      | cons a u =>
        simp only [List.cons_append, List.cons.injEq] at hu'
        exact absurd (by rw [hu, hu'.1]; simp) hn
  · rintro rfl
    exact ⟨r, by simp⟩

/-- A key that ends in its only separator occurs in `m ++ sep :: r` at the end of `m`, or
in `r`. -/
lemma prefix_drop_sep {sep : Char} {n m r : List Char} {i : ℕ} (hn : sep ∉ n) (hm : sep ∉ m) :
    n ++ [sep] <+: (m ++ sep :: r).drop i ↔
      (i + n.length = m.length ∧ n = m.drop i) ∨
        ∃ k, i = m.length + 1 + k ∧ n ++ [sep] <+: r.drop k := by
  rcases Nat.lt_or_ge m.length i with hi | hi
  · obtain ⟨k, rfl⟩ : ∃ k, i = m.length + 1 + k := ⟨i - (m.length + 1), by omega⟩
    have hdrop : (m ++ sep :: r).drop (m.length + 1 + k) = r.drop k := by
      rw [List.drop_append, List.drop_eq_nil_of_le (by omega)]
      simp [show m.length + 1 + k - m.length = k + 1 by omega]
    rw [hdrop]
    constructor
    · exact fun h => Or.inr ⟨k, rfl, h⟩
    · rintro (⟨h, -⟩ | ⟨k', hk, h⟩)
      · omega
      · rwa [show k = k' by omega]
  · rw [List.drop_append_of_le_length hi]
    have hmi : sep ∉ m.drop i := fun h => hm (List.mem_of_mem_drop h)
    rw [snoc_prefix_iff hn hmi]
    constructor
    · intro h
      refine Or.inl ⟨?_, h⟩
      rw [h, List.length_drop]; omega
    · rintro (⟨-, h⟩ | ⟨k, hk, -⟩)
      · exact h
      · omega

lemma prefix_drop_snoc {c : Char} {key r : List Char} {k : ℕ} (hc : c ∉ key) (hk : k ≤ r.length) :
    key <+: (r ++ [c]).drop k ↔ key <+: r.drop k := by
  rw [List.drop_append_of_le_length hk]
  constructor
  · intro h
    rcases List.prefix_concat_iff.mp h with h | h
    · exact absurd (by rw [h]; simp) hc
    · exact h
  · exact fun h => h.trans (List.prefix_append _ _)

/-- A character that occurs once is found from any offset up to its own. -/
lemma indexOfFrom_single {c : Char} {s t : List Char} {start : ℕ} (hs : c ∉ s) (ht : c ∉ t)
    (hstart : start ≤ s.length) : indexOfFrom [c] 0 start (s ++ c :: t) = some s.length := by
  have hidx : indexOf [c] (s ++ c :: t) = [s.length] := by
    have hmem : ∀ i, i ∈ indexOf [c] (s ++ c :: t) ↔ i = s.length := by
      intro i
      rw [mem_indexOf]
      have := prefix_drop_sep (n := []) (r := t) (i := i) (by simp) hs
      simp only [List.nil_append, List.length_nil, Nat.add_zero] at this
      rw [this]
      constructor
      · rintro ⟨-, ⟨h, -⟩ | ⟨k, -, h⟩⟩
        · exact h
        · have : c ∈ t.drop k := h.subset (by simp)
          exact absurd (List.mem_of_mem_drop this) ht
      · rintro rfl; simp
    have hnd : (indexOf [c] (s ++ c :: t)).Nodup := (List.nodup_range).filter _
    have hmem' : s.length ∈ indexOf [c] (s ++ c :: t) := (hmem _).mpr rfl
    rcases hl : indexOf [c] (s ++ c :: t) with _ | ⟨a, _ | ⟨b, l⟩⟩
    · rw [hl] at hmem'; simp at hmem'
    · rw [hl, List.mem_singleton] at hmem'; rw [hmem']
    · rw [hl] at hmem hnd
      have ha := (hmem a).mp (by simp)
      have hb := (hmem b).mp (by simp)
      simp [ha, hb] at hnd
  simp [indexOfFrom, hidx, hstart]

lemma substring_append (s t u : List Char) (i : ℕ) (hi : i ≤ t.length) :
    substring (s ++ t ++ u) (s.length + i) (s.length + t.length) = some (t.drop i) := by
  rw [substring, if_pos ⟨by omega, by simp only [List.length_append]; omega⟩]
  rw [List.take_append_of_le_length (by simp), List.take_of_length_le (by simp)]
  rw [← List.drop_drop, List.drop_left]

end DriverQueries.Text
