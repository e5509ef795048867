import DriverQueries.GreedyRegex

/-!
Regular expressions with repeated groups, as a backtracking engine matches them.

A repeated expression takes as many turns as it can, and gives them back from the last one when
what follows does not match. The first path on which everything matches decides what the groups
hold. So it is enough to follow that path as far as the groups of interest are concerned, and to
know of the rest that some path matches it and that none touches these groups.
-/

namespace DriverQueries.RegexLoops

open GreedyRegex

/-- A regular expression, any number of turns of an expression, or a sequence. -/
inductive Pattern where
  | regex (r : Regex)
  | star (e : Pattern)
  | seq (e e' : Pattern)

/-- One turn at least. -/
def Pattern.plus (e : Pattern) : Pattern := .seq e (.star e)

section Matching

variable {α : Type}

/-- At most `n` turns, as many as can be had. A turn that takes nothing is the last one. -/
def matchStar (turn : (List Char → Captures → Option α) → List Char → Captures → Option α)
    (k : List Char → Captures → Option α) : ℕ → List Char → Captures → Option α
  | 0, s, g => k s g
  | n + 1, s, g =>
    (turn (fun t g' => if t.length < s.length then matchStar turn k n t g' else k t g') s g).or
      (k s g)

/-- A text has no room for more turns than it has characters, and one that takes nothing. -/
def Pattern.exec : Pattern → (List Char → Captures → Option α) → List Char → Captures → Option α
  | regex r, k, s, g => r.exec k s g
  | star e, k, s, g => matchStar (fun k => e.exec k) k (s.length + 1) s g
  | seq e e', k, s, g => e.exec (e'.exec k) s g

end Matching

/-- What group `n` holds when the pattern matches the whole text. -/
def Pattern.capture (e : Pattern) (s : List Char) (n : ℕ) : Option (List Char) :=
  (e.exec atEnd s fun _ => none).bind fun g => g n

variable {α : Type} {p : Char → Bool} {s a : List Char} {g : Captures} {x : α} {n : ℕ}

/-! ### The first path -/

lemma matchMany_of_dropWhile {k : List Char → Option α} (h : k (s.dropWhile p) = some x) :
    matchMany p k s = some x := by
  induction s with
  | nil => exact h
  | cons c s ih =>
    rw [matchMany]
    split_ifs with hc
    · rw [List.dropWhile_cons_of_pos hc] at h
      rw [ih h, Option.some_or]
    · rwa [List.dropWhile_cons_of_neg (by simpa using hc)] at h

lemma exec_wordGroup_of_dropWhile {k : List Char → Captures → Option α}
    (hs : s.takeWhile p ≠ [])
    (h : k (s.dropWhile p) (Function.update g n (some (s.takeWhile p))) = some x) :
    (wordGroup n p).exec k s g = some x := by
  cases s with
  | nil => simp at hs
  | cons c s =>
    have hc : p c = true := by
      by_contra hc
      simp [hc] at hs
    simp only [wordGroup, Regex.exec, hc, if_true]
    refine matchMany_of_dropWhile ?_
    rw [List.dropWhile_cons_of_pos hc] at h
    have htake := take_length_sub (p := p) (s := c :: s)
    rw [List.dropWhile_cons_of_pos hc] at htake
    rwa [htake]

lemma matchStar_of_none {k : List Char → Captures → Option α}
    {turn : (List Char → Captures → Option α) → List Char → Captures → Option α}
    (h : ∀ k, turn k s g = none) : matchStar turn k n s g = k s g := by
  cases n with
  | zero => rfl
  | succ n => rw [matchStar, h, Option.none_or]

lemma exec_plus_wordGroup {k : List Char → Captures → Option α} (hs : s.takeWhile p ≠ [])
    (h : k (s.dropWhile p) (Function.update g n (some (s.takeWhile p))) = some x) :
    (Pattern.plus (.regex (wordGroup n p))).exec k s g = some x := by
  refine exec_wordGroup_of_dropWhile hs ?_
  refine (matchStar_of_none fun k => exec_wordGroup_eq_none ?_).trans h
  cases hd : s.dropWhile p with
  | nil => rfl
  | cons c t =>
    have hc := List.head_dropWhile_not p (by simp [hd] : s.dropWhile p ≠ [])
    simp only [hd, List.head_cons] at hc
    simp [hc]

/-! ### The other groups -/

def groups : Regex → List ℕ
  | .text _ | .one _ | .many _ => []
  | .seq r r' | .alt r r' => groups r ++ groups r'
  | .group n r => n :: groups r

def Pattern.groups : Pattern → List ℕ
  | .regex r => RegexLoops.groups r
  | .star e => e.groups
  | .seq e e' => e.groups ++ e'.groups

/-- A match is a match of what follows, for which the groups outside of `ns` are as before. -/
def Keeps (ns : List ℕ) (k : List Char → Captures → Option α) (g : Captures) (x : α) : Prop :=
  ∃ t g', k t g' = some x ∧ ∀ n ∉ ns, g' n = g n

lemma Keeps.trans {ns ms : List ℕ} {k k' : List Char → Captures → Option α}
    (h : Keeps ns k g x) (h' : ∀ t g, k t g = some x → Keeps ms k' g x) :
    Keeps (ns ++ ms) k' g x := by
  obtain ⟨t, g', hk, hg⟩ := h
  obtain ⟨t', g'', hk', hg'⟩ := h' t g' hk
  refine ⟨t', g'', hk', fun n hn => ?_⟩
  simp only [List.mem_append, not_or] at hn
  rw [hg' n hn.2, hg n hn.1]

lemma Keeps.mono {ns ms : List ℕ} {k : List Char → Captures → Option α} (h : Keeps ns k g x)
    (hsub : ns ⊆ ms) : Keeps ms k g x := by
  obtain ⟨t, g', hk, hg⟩ := h
  exact ⟨t, g', hk, fun n hn => hg n fun hmem => hn (hsub hmem)⟩

lemma keeps_of_exec (r : Regex) {k : List Char → Captures → Option α}
    (h : r.exec k s g = some x) : Keeps (groups r) k g x := by
  -- only a group sets a capture, and only its own
  induction r generalizing k s g with
  | text w =>
    rw [Regex.exec] at h
    split_ifs at h
    exact ⟨_, g, h, fun _ _ => rfl⟩
  | one p =>
    cases s with
    | nil => cases h
    | cons c s =>
      simp only [Regex.exec] at h
      split_ifs at h
      exact ⟨s, g, h, fun _ _ => rfl⟩
  | many p =>
    obtain ⟨a, t, -, -, hk⟩ := exists_of_matchMany h
    exact ⟨t, g, hk, fun _ _ => rfl⟩
  | seq r r' ih ih' => exact (ih h).trans fun t g hk => ih' hk
  | alt r r' ih ih' =>
    rcases Option.or_eq_some_iff.mp h with h | ⟨-, h⟩
    · exact (ih h).mono (List.subset_append_left _ _)
    · exact (ih' h).mono (List.subset_append_right _ _)
  | group n r ih =>
    obtain ⟨t, g', hk, hg⟩ := ih h
    refine ⟨t, _, hk, fun m hm => ?_⟩
    simp only [groups, List.mem_cons, not_or] at hm
    rw [Function.update_of_ne hm.1, hg m hm.2]

/-- Turns that each keep the groups keep them together. -/
lemma keeps_of_matchStar {ns : List ℕ} {k : List Char → Captures → Option α}
    {turn : (List Char → Captures → Option α) → List Char → Captures → Option α}
    (hturn : ∀ k s g, turn k s g = some x → Keeps ns k g x) (h : matchStar turn k n s g = some x) :
    Keeps ns k g x := by
  induction n generalizing s g with
  | zero => exact ⟨s, g, h, fun _ _ => rfl⟩
  | succ n ih =>
    rcases Option.or_eq_some_iff.mp h with h | ⟨-, h⟩
    · have htrans : Keeps (ns ++ ns) k g x := (hturn _ _ _ h).trans fun t g hk => by
        split_ifs at hk
        · exact ih hk
        · exact ⟨t, g, hk, fun _ _ => rfl⟩
      exact htrans.mono (List.append_subset.mpr ⟨fun _ hn => hn, fun _ hn => hn⟩)
    · exact ⟨s, g, h, fun _ _ => rfl⟩

lemma Pattern.keeps (e : Pattern) {k : List Char → Captures → Option α}
    (h : e.exec k s g = some x) : Keeps e.groups k g x := by
  induction e generalizing k s g with
  | regex r => exact keeps_of_exec r h
  | star e ih => exact keeps_of_matchStar (fun k s g hk => ih hk) h
  | seq e e' ih ih' => exact (ih h).trans fun t g hk => ih' hk

lemma Pattern.eq_of_atEnd {e : Pattern} {g' : Captures} (h : e.exec atEnd s g = some g')
    (hn : n ∉ e.groups) : g' n = g n := by
  obtain ⟨t, g'', hk, hg⟩ := e.keeps h
  rw [atEnd] at hk
  split_ifs at hk
  obtain rfl := Option.some.inj hk
  exact hg n hn

/-! ### Some path -/

/-- If every character can be a turn, the repetition can pass over any text to where what follows
matches. -/
lemma matchStar_isSome {k : List Char → Captures → Option α}
    {turn : (List Char → Captures → Option α) → List Char → Captures → Option α} {t : List Char}
    (hturn : ∀ k c s g, (∀ g, (k s g).isSome) → (turn k (c :: s) g).isSome)
    (hk : ∀ g, (k t g).isSome) (hn : a.length ≤ n) :
    (matchStar turn k n (a ++ t) g).isSome := by
  induction a generalizing n g with
  | nil =>
    cases n with
    | zero => exact hk g
    | succ n => simp [matchStar, hk g]
  | cons c a ih =>
    obtain ⟨n, rfl⟩ : ∃ m, n = m + 1 := ⟨n - 1, by rw [List.length_cons] at hn; omega⟩
    have hlt : (a ++ t).length < (c :: (a ++ t)).length := by simp
    rw [List.cons_append, matchStar, Option.isSome_or, Bool.or_eq_true]
    refine Or.inl (hturn _ c (a ++ t) g fun g => ?_)
    rw [if_pos hlt]
    exact ih (by simpa using hn)

end DriverQueries.RegexLoops
