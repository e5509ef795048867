import Mathlib.Data.List.Basic

/-!
A stack of saved sets.

A machine keeps a set to which commands add, and a stack on which it saves the set and from
which it restores it. What a command adds stays in the set until the block in which it was
added is closed: until a restore that takes back a save from before it.
-/

namespace DriverQueries.ScopeStack

variable {α : Type*}

inductive Command (α : Type*)
  | save
  | restore
  | add (xs : List α)
  | skip

/-- The set, as a list, and the stack. -/
structure State (α : Type*) where
  current : List α
  saved : List (List α)

/-- A restore with nothing saved does nothing. -/
def step (s : State α) : Command α → State α
  | .save => ⟨s.current, s.current :: s.saved⟩
  | .restore =>
    match s.saved with
    | [] => s
    | xs :: saved => ⟨xs, saved⟩
  | .add xs => ⟨xs ++ s.current, s.saved⟩
  | .skip => s

def run (s : State α) (cs : List (Command α)) : State α := cs.foldl step s

/-- With `n` sets saved, no restore comes to an empty stack. -/
def nested : ℕ → List (Command α) → Bool
  | _, [] => true
  | n, .save :: cs => nested (n + 1) cs
  | 0, .restore :: _ => false
  | n + 1, .restore :: cs => nested n cs
  | n, .add _ :: cs => nested n cs
  | n, .skip :: cs => nested n cs

/-- Below `n` saves, some restore takes back what was saved before the commands. -/
def closes : ℕ → List (Command α) → Bool
  | _, [] => false
  | n, .save :: cs => closes (n + 1) cs
  | 0, .restore :: _ => true
  | n + 1, .restore :: cs => closes n cs
  | n, .add _ :: cs => closes n cs
  | n, .skip :: cs => closes n cs

variable {x : α} {s : State α} {cs : List (Command α)} {n : ℕ}

@[simp] lemma run_nil (s : State α) : run s [] = s := rfl

@[simp] lemma run_cons (s : State α) (c : Command α) (cs : List (Command α)) :
    run s (c :: cs) = run (step s c) cs := rfl

lemma run_append (s : State α) (cs cs' : List (Command α)) :
    run s (cs ++ cs') = run (run s cs) cs' := List.foldl_append

lemma restore_mem_of_closes (h : closes n cs) : .restore ∈ cs := by
  induction cs generalizing n with
  | nil => cases n <;> simp [closes] at h
  | cons c cs ih =>
    cases c with
    | restore => exact List.mem_cons_self
    | save | add xs | skip => exact List.mem_cons_of_mem _ (ih h)

def Untouched (x : α) (cs : List (Command α)) : Prop := ∀ xs, .add xs ∈ cs → x ∉ xs

lemma Untouched.tail {c : Command α} (h : Untouched x (c :: cs)) : Untouched x cs :=
  fun xs hxs => h xs (List.mem_cons_of_mem c hxs)

/-- The state has nowhere the element `x`. -/
def Absent (x : α) (s : State α) : Prop := x ∉ s.current ∧ ∀ xs ∈ s.saved, x ∉ xs

lemma Absent.step {c : Command α} (h : Absent x s) (hc : ∀ xs, c = .add xs → x ∉ xs) :
    Absent x (step s c) := by
  obtain ⟨hcur, hsaved⟩ := h
  cases c with
  | save => exact ⟨hcur, fun xs hxs => (List.mem_cons.mp hxs).elim (· ▸ hcur) (hsaved xs)⟩
  | restore =>
    unfold ScopeStack.step
    cases hs : s.saved with
    | nil => exact ⟨hcur, hsaved⟩
    | cons ys saved =>
      rw [hs] at hsaved
      exact ⟨hsaved ys List.mem_cons_self, fun xs hxs => hsaved xs (List.mem_cons_of_mem ys hxs)⟩
  | add xs => exact ⟨fun hx => (List.mem_append.mp hx).elim (hc xs rfl) hcur, hsaved⟩
  | skip => exact ⟨hcur, hsaved⟩

lemma Absent.run (h : Absent x s) (hcs : Untouched x cs) : Absent x (run s cs) := by
  induction cs generalizing s with
  | nil => exact h
  | cons c cs ih =>
    rw [run_cons]
    exact ih (h.step fun xs hxs => hcs xs (hxs ▸ List.mem_cons_self)) hcs.tail

/-- The state has `x`, and so have the last `n` saved sets, but not those before them. -/
structure Present (x : α) (n : ℕ) (s : State α) : Prop where
  current : x ∈ s.current
  inside : ∀ xs ∈ s.saved.take n, x ∈ xs
  outside : ∀ xs ∈ s.saved.drop n, x ∉ xs
  depth : n ≤ s.saved.length

/-- An element stays until its block is closed. -/
lemma Present.mem_run_iff (h : Present x n s) (hcs : Untouched x cs)
    (hnested : nested s.saved.length cs) : x ∈ (run s cs).current ↔ closes n cs = false := by
  induction cs generalizing s n with
  | nil => simpa [closes] using h.current
  | cons c cs ih =>
    rw [run_cons]
    cases c with
    | save =>
      refine ih (n := n + 1) ⟨h.current, ?_, h.outside, Nat.succ_le_succ h.depth⟩ hcs.tail hnested
      intro xs hxs
      exact (List.mem_cons.mp hxs).elim (· ▸ h.current) (h.inside xs)
    | restore =>
      obtain ⟨current, saved⟩ := s
      cases saved with
      | nil => simp [nested] at hnested
      | cons ys saved =>
        cases n with
        | zero =>
          -- the block is closed, and nothing adds the element again
          have habsent : Absent x (step ⟨current, ys :: saved⟩ .restore) :=
            ⟨h.outside ys List.mem_cons_self,
              fun xs hxs => h.outside xs (List.mem_cons_of_mem ys hxs)⟩
          simpa [closes] using (habsent.run hcs.tail).1
        | succ n =>
          exact ih ⟨h.inside ys List.mem_cons_self,
            fun xs hxs => h.inside xs (List.mem_cons_of_mem ys hxs), h.outside,
            Nat.le_of_succ_le_succ h.depth⟩ hcs.tail hnested
    | add xs =>
      exact ih ⟨List.mem_append_right xs h.current, h.inside, h.outside, h.depth⟩ hcs.tail hnested
    | skip => exact ih h hcs.tail hnested

lemma nested_of_append {cs' : List (Command α)} (h : nested n (cs ++ cs')) : nested n cs := by
  induction cs generalizing n with
  | nil => cases n <;> rfl
  | cons c cs ih =>
    cases c with
    | restore =>
      cases n with
      | zero => simp [nested] at h
      | succ n => exact ih h
    | save | add xs | skip => exact ih h

lemma nested_append_left {cs' : List (Command α)} :
    nested s.saved.length (cs ++ cs') → nested (run s cs).saved.length cs' := by
  induction cs generalizing s with
  | nil => exact id
  | cons c cs ih =>
    intro h
    rw [run_cons]
    refine ih (s := step s c) ?_
    obtain ⟨current, saved⟩ := s
    cases c with
    | restore =>
      cases saved with
      | nil => simp [nested] at h
      | cons ys saved => exact h
    | save | add xs | skip => exact h

/-- **What one command adds is in the set at the end iff its block is not closed.** -/
theorem mem_run_add_iff {before after : List (Command α)} {xs : List α} (hx : x ∈ xs)
    (hbefore : Untouched x before) (hafter : Untouched x after)
    (hnested : nested 0 (before ++ .add xs :: after)) :
    x ∈ (run ⟨[], []⟩ (before ++ .add xs :: after)).current ↔ closes 0 after = false := by
  have habsent : Absent x (run ⟨[], []⟩ before) :=
    Absent.run ⟨List.not_mem_nil, fun _ h => absurd h List.not_mem_nil⟩ hbefore
  have hpresent : Present x 0 (step (run ⟨[], []⟩ before) (.add xs)) :=
    ⟨List.mem_append_left _ hx, fun _ h => absurd h List.not_mem_nil, habsent.2, Nat.zero_le _⟩
  have hdepth : nested (run ⟨[], []⟩ before).saved.length (.add xs :: after) :=
    nested_append_left (s := ⟨[], []⟩) hnested
  rw [run_append, run_cons]
  exact hpresent.mem_run_iff hafter hdepth

end DriverQueries.ScopeStack
