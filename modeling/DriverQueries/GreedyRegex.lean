import Mathlib.Data.List.Basic
import Mathlib.Logic.Function.Basic

/-!
Regular expressions as a backtracking engine matches them.

A repetition takes as many characters as it can and gives them back one by one when what follows
does not match. Groups record what they have taken. What a repetition leaves is found from what
follows it: if that can begin with no character of the class, all of them are taken, and
characters at which nothing of it can begin are passed over.
-/

namespace DriverQueries.GreedyRegex

/-- A text, a character of a class, a repeated class, a sequence, an alternative or a group. -/
inductive Regex where
  | text (w : List Char)
  | one (p : Char → Bool)
  | many (p : Char → Bool)
  | seq (r r' : Regex)
  | alt (r r' : Regex)
  | group (n : ℕ) (r : Regex)

abbrev Captures := ℕ → Option (List Char)

section Matching

variable {α : Type}

/-- The first success of what follows a repetition, from the longest one down. -/
def matchMany (p : Char → Bool) (k : List Char → Option α) : List Char → Option α
  | [] => k []
  | c :: s => if p c then (matchMany p k s).or (k (c :: s)) else k (c :: s)

/-- The expression on a text, followed by what the continuation does with the rest. -/
def Regex.exec : Regex → (List Char → Captures → Option α) → List Char → Captures → Option α
  | text w, k, s, g => if w <+: s then k (s.drop w.length) g else none
  | one p, k, s, g =>
    match s with
    | [] => none
    | c :: s => if p c then k s g else none
  | many p, k, s, g => matchMany p (fun t => k t g) s
  | seq r r', k, s, g => r.exec (r'.exec k) s g
  | alt r r', k, s, g => (r.exec k s g).or (r'.exec k s g)
  | group n r, k, s, g =>
    r.exec (fun t g' => k t (Function.update g' n (some (s.take (s.length - t.length))))) s g

end Matching

/-- The groups are returned where the text ends. -/
def atEnd (s : List Char) (g : Captures) : Option Captures := if s = [] then some g else none

/-- What group `n` takes when the expression matches the whole text. -/
def Regex.capture (r : Regex) (s : List Char) (n : ℕ) : Option (List Char) :=
  (r.exec atEnd s fun _ => none).bind fun g => g n

def Regex.accepts (r : Regex) (s : List Char) : Bool := (r.exec atEnd s fun _ => none).isSome

variable {α : Type} {p : Char → Bool} {k : List Char → Option α} {s a : List Char} {c : Char}

@[simp] lemma matchMany_nil : matchMany p k [] = k [] := rfl

lemma matchMany_cons (h : k (c :: s) = none) :
    matchMany p k (c :: s) = if p c then matchMany p k s else none := by
  rw [matchMany, h, Option.or_none]

lemma matchMany_append (h : ∀ c ∈ a, ∀ t, k (c :: t) = none) :
    matchMany p k (a ++ s) = if a.all p then matchMany p k s else none := by
  induction a with
  | nil => simp
  | cons c a ih =>
    rw [List.cons_append, matchMany_cons (h c (by simp) _),
      ih fun d hd => h d (List.mem_cons_of_mem c hd)]
    by_cases hc : p c <;> simp [hc]

lemma matchMany_eq (h : ∀ c t, p c → k (c :: t) = none) :
    matchMany p k s = k (s.dropWhile p) := by
  induction s with
  | nil => rfl
  | cons c s ih =>
    rw [matchMany, List.dropWhile_cons]
    split_ifs with hc
    · rw [h c s hc, Option.or_none, ih]
    · rfl

lemma exists_of_matchMany {x : α} (h : matchMany p k s = some x) :
    ∃ a t, s = a ++ t ∧ (∀ c ∈ a, p c) ∧ k t = some x := by
  induction s with
  | nil => exact ⟨[], [], rfl, by simp, h⟩
  | cons c s ih =>
    rw [matchMany] at h
    split_ifs at h with hc
    · rcases Option.or_eq_some_iff.mp h with h | ⟨-, h⟩
      · obtain ⟨a, t, rfl, ha, ht⟩ := ih h
        exact ⟨c :: a, t, rfl, by simpa [hc] using ha, ht⟩
      · exact ⟨[], c :: s, rfl, by simp, h⟩
    · exact ⟨[], c :: s, rfl, by simp, h⟩

/-! ### Texts -/

section Texts

variable {k : List Char → Captures → Option α} {g : Captures} {r : Regex} {d : Char}
  {w : List Char}

lemma exec_text_append (w : List Char) :
    (Regex.seq (.text w) r).exec k (w ++ s) g = r.exec k s g := by
  simp [Regex.exec]

lemma exec_text_of_ne (h : d ≠ c) : (Regex.seq (.text (d :: w)) r).exec k (c :: s) g = none := by
  simp [Regex.exec, h]

lemma exec_group_text (n : ℕ) (w : List Char) :
    (Regex.group n (.text w)).exec k (w ++ s) g = k s (Function.update g n (some w)) := by
  simp [Regex.exec]

lemma exec_group_text_of_ne {n : ℕ} (h : d ≠ c) :
    (Regex.group n (.text (d :: w))).exec k (c :: s) g = none := by
  simp [Regex.exec, h]

lemma exec_group_alt {n : ℕ} {r' : Regex} : (Regex.group n (.alt r r')).exec k s g =
    ((Regex.group n r).exec k s g).or ((Regex.group n r').exec k s g) := rfl

lemma exec_many (h : ∀ c t g, p c → r.exec k (c :: t) g = none) :
    (Regex.seq (.many p) r).exec k s g = r.exec k (s.dropWhile p) g :=
  matchMany_eq fun c t hc => h c t g hc

lemma exec_many_text (hd : p d = false) :
    (Regex.seq (.many p) (.seq (.text (d :: w)) r)).exec k s g =
      (Regex.seq (.text (d :: w)) r).exec k (s.dropWhile p) g := by
  refine exec_many fun c t g hc => exec_text_of_ne ?_
  rintro rfl
  rw [hd] at hc
  exact Bool.noConfusion hc

lemma exec_many_append_text (hd : p d = false) (ha : ∀ c ∈ a, p c = true) :
    (Regex.seq (.many p) (.seq (.text (d :: w)) r)).exec k (a ++ ((d :: w) ++ s)) g =
      r.exec k s g := by
  rw [exec_many_text hd, List.dropWhile_append_of_pos ha, List.cons_append,
    List.dropWhile_cons_of_neg (by simp [hd]), ← List.cons_append, exec_text_append]

end Texts

/-! ### Words -/

def wordGroup (n : ℕ) (p : Char → Bool) : Regex := .group n (.seq (.one p) (.many p))

lemma take_length_sub : s.take (s.length - (s.dropWhile p).length) = s.takeWhile p := by
  have hlen : s.length - (s.dropWhile p).length = (s.takeWhile p).length := by
    have := congrArg List.length (s.takeWhile_append_dropWhile (p := p))
    rw [List.length_append] at this
    omega
  rw [hlen]
  exact (List.prefix_iff_eq_take.mp (List.takeWhile_prefix p)).symm

/-- If what follows can begin with no character of the class, the group is the longest word. -/
lemma exec_wordGroup {k : List Char → Captures → Option α} {n : ℕ} {g : Captures}
    (h : ∀ c t g, p c → k (c :: t) g = none) (hs : s.takeWhile p ≠ []) :
    (wordGroup n p).exec k s g =
      k (s.dropWhile p) (Function.update g n (some (s.takeWhile p))) := by
  cases s with
  | nil => simp at hs
  | cons c s =>
    have hc : p c = true := by
      by_contra hc
      simp [hc] at hs
    have htake := take_length_sub (p := p) (s := c :: s)
    rw [List.dropWhile_cons_of_pos hc] at htake ⊢
    simp only [wordGroup, Regex.exec, hc, if_true]
    rw [matchMany_eq fun c t hct => h c t _ hct, htake]

lemma exec_wordGroup_eq_none {k : List Char → Captures → Option α} {n : ℕ} {g : Captures}
    (hs : s.takeWhile p = []) : (wordGroup n p).exec k s g = none := by
  cases s with
  | nil => rfl
  | cons c s =>
    have hc : ¬ p c = true := by
      intro hc
      simp [hc] at hs
    simp [wordGroup, Regex.exec, hc]

end DriverQueries.GreedyRegex
