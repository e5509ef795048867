import Mathlib.Data.List.Nodup
import Mathlib.Data.List.Perm.Basic
import Mathlib.Logic.Function.Basic
import Mathlib.Logic.Relation

/-!
Tasks that a pool of workers runs, each on one cell of a shared store.

A task is a script of atomic actions on its cell. The workers take the tasks from a queue, and
their actions interleave in any order. When no two tasks share a cell, every run of the pool
that comes to its end leaves the same store and the same results, those of the tasks run one
after another.
-/

namespace DriverQueries.Workers

/-- A script returns, or changes the cell and goes on with what it saw there. -/
inductive Script (σ α : Type) where
  | done (a : α)
  | act (f : σ → σ) (next : σ → Script σ α)

namespace Script

variable {σ α β : Type}

def andThen : Script σ α → (α → Script σ β) → Script σ β
  | done a, k => k a
  | act f next, k => act f fun s => (next s).andThen k

instance : Monad (Script σ) where
  pure := done
  bind := andThen

/-- One action that returns what it finds and leaves what it is told to. -/
def modifyGet (g : σ → α × σ) : Script σ α := act (fun s => (g s).2) fun s => done (g s).1

def run : Script σ α → σ → α × σ
  | done a, s => (a, s)
  | act f next, s => (next s).run (f s)

end Script

variable {τ κ σ α : Type}

/-- The store, the tasks that wait, those that workers have taken up, each with what is left of
its script, and those that have ended. -/
structure Pool (τ κ σ α : Type) where
  cells : κ → σ
  queue : List τ
  running : List (τ × Script σ α)
  finished : List (τ × α)

def initial (tasks : List τ) (cells : κ → σ) : Pool τ κ σ α :=
  { cells := cells, queue := tasks, running := [], finished := [] }

def Final (w : Pool τ κ σ α) : Prop := w.queue = [] ∧ w.running = []

section Runs

variable [DecidableEq κ] (key : τ → κ) (body : τ → Script σ α) (jobs : ℕ)

/-- A free worker takes the next task, or a task acts on its cell, or it ends. -/
inductive Step : Pool τ κ σ α → Pool τ κ σ α → Prop
  | start {cells t queue running finished} (hfree : running.length < jobs) :
      Step ⟨cells, t :: queue, running, finished⟩
        ⟨cells, queue, running ++ [(t, body t)], finished⟩
  | act {cells queue xs t f next ys finished} :
      Step ⟨cells, queue, xs ++ (t, .act f next) :: ys, finished⟩
        ⟨Function.update cells (key t) (f (cells (key t))), queue,
          xs ++ (t, next (cells (key t))) :: ys, finished⟩
  | finish {cells queue xs t a ys finished} :
      Step ⟨cells, queue, xs ++ (t, .done a) :: ys, finished⟩
        ⟨cells, queue, xs ++ ys, finished ++ [(t, a)]⟩

def Reaches : Pool τ κ σ α → Pool τ κ σ α → Prop := Relation.ReflTransGen (Step key body jobs)

/-- The tasks one after another: what they return, and the store they leave. -/
def runAll : List τ → (κ → σ) → List (τ × α) × (κ → σ)
  | [], cells => ([], cells)
  | t :: ts, cells =>
    let r := (body t).run (cells (key t))
    let rest := runAll ts (Function.update cells (key t) r.2)
    ((t, r.1) :: rest.1, rest.2)

end Runs

/-- Every task with what is left of its script. -/
def left (body : τ → Script σ α) (w : Pool τ κ σ α) : List (τ × Script σ α) :=
  w.queue.map (fun t => (t, body t)) ++ w.running ++ w.finished.map fun x => (x.1, .done x.2)

/-- What is left of each task brings its cell to where the whole task brings the first one. -/
structure Apart (key : τ → κ) (body : τ → Script σ α) (tasks : List τ) (cells : κ → σ)
    (w : Pool τ κ σ α) : Prop where
  tasks_perm : ((left body w).map Prod.fst).Perm tasks
  run_left : ∀ x ∈ left body w,
    x.2.run (w.cells (key x.1)) = (body x.1).run (cells (key x.1))
  others : ∀ k ∉ tasks.map key, w.cells k = cells k

variable {key : τ → κ} {body : τ → Script σ α} {jobs : ℕ} {tasks : List τ} {cells : κ → σ}
  {w w' : Pool τ κ σ α}

lemma apart_initial : Apart key body tasks cells (initial tasks cells) where
  tasks_perm := by simp [left, initial, Function.comp_def]
  run_left := by simp [left, initial]
  others := fun _ _ => rfl

lemma Apart.perm (h : Apart key body tasks cells w) (hcells : w'.cells = w.cells)
    (hleft : (left body w').Perm (left body w)) : Apart key body tasks cells w' where
  tasks_perm := (hleft.map _).trans h.tasks_perm
  run_left := fun x hx => hcells ▸ h.run_left x (hleft.mem_iff.mp hx)
  others := hcells ▸ h.others

/-- A task has the same result in every final pool. -/
lemma Apart.finished_eq (h : Apart key body tasks cells w) (hw : Final w) :
    w.finished.Perm (tasks.map fun t => (t, ((body t).run (cells (key t))).1)) := by
  have hleft : left body w = w.finished.map fun x => (x.1, .done x.2) := by
    simp [left, hw.1, hw.2]
  have hfst : (w.finished.map Prod.fst).Perm tasks := by
    simpa [hleft, Function.comp_def] using h.tasks_perm
  have hresult : w.finished =
      (w.finished.map Prod.fst).map fun t => (t, ((body t).run (cells (key t))).1) := by
    rw [List.map_map]
    refine (List.map_id _).symm.trans (List.map_congr_left fun x hx => ?_)
    have hrun := h.run_left (x.1, .done x.2) (hleft ▸ List.mem_map_of_mem hx)
    exact Prod.ext rfl (congrArg Prod.fst hrun)
  rw [hresult]
  exact hfst.map _

lemma Apart.cells_eq (h : Apart key body tasks cells w) (hw : Final w) {t : τ} (ht : t ∈ tasks) :
    w.cells (key t) = ((body t).run (cells (key t))).2 := by
  have hleft : left body w = w.finished.map fun x => (x.1, .done x.2) := by
    simp [left, hw.1, hw.2]
  have hmem := h.tasks_perm.mem_iff.mpr ht
  rw [hleft, List.map_map, List.mem_map] at hmem
  obtain ⟨x, hx, rfl⟩ := hmem
  exact congrArg Prod.snd (h.run_left (x.1, .done x.2) (hleft ▸ List.mem_map_of_mem hx))

variable [DecidableEq κ]

/-- An action is not seen by the other tasks, whose cells are others. -/
lemma Apart.act {before after : List (τ × Script σ α)} {t : τ} {f : σ → σ}
    {next : σ → Script σ α} (hkeys : (tasks.map key).Nodup) (h : Apart key body tasks cells w)
    (hw : left body w = before ++ (t, .act f next) :: after)
    (hw' : left body w' = before ++ (t, next (w.cells (key t))) :: after)
    (hcells : w'.cells = Function.update w.cells (key t) (f (w.cells (key t)))) :
    Apart key body tasks cells w' := by
  obtain ⟨hperm, hrun, hothers⟩ := h
  rw [hw] at hperm hrun
  have hne : ∀ x ∈ before ++ after, key x.1 ≠ key t := by
    have hnodup := (hperm.map key).nodup_iff.mpr hkeys
    rw [((List.perm_middle.map Prod.fst).map key).nodup_iff] at hnodup
    simp only [List.map_cons, List.nodup_cons, List.map_map] at hnodup
    intro x hx heq
    exact hnodup.1 (List.mem_map.mpr ⟨x, hx, heq⟩)
  refine ⟨?_, fun x hx => ?_, fun k hk => ?_⟩
  · rw [hw']
    simpa using hperm
  · rw [hw', List.mem_append, List.mem_cons, or_left_comm, ← List.mem_append] at hx
    rcases hx with rfl | hx
    · rw [hcells, Function.update_self, ← hrun (t, .act f next) (by simp)]
      rfl
    · rw [hcells, Function.update_of_ne (hne x hx)]
      exact hrun x (by simp only [List.mem_append, List.mem_cons] at hx ⊢; tauto)
  · have ht : t ∈ tasks := hperm.mem_iff.mp (by simp)
    have hkt : k ≠ key t := fun heq => hk (heq ▸ List.mem_map_of_mem ht)
    rw [hcells, Function.update_of_ne hkt]
    exact hothers k hk

/-- The step lemma: tasks on cells of their own keep out of each other's way. -/
lemma Apart.step (hkeys : (tasks.map key).Nodup) (h : Apart key body tasks cells w)
    (hstep : Step key body jobs w w') : Apart key body tasks cells w' := by
  cases hstep with
  | @start cells' t queue running finished hfree =>
    refine h.perm rfl ?_
    simp only [left, List.map_cons, List.append_assoc, List.cons_append, List.nil_append]
    exact (List.perm_middle.append_left _).trans List.perm_middle
  | @act cells' queue xs t f next ys finished =>
    have hsplit : ∀ (p : Script σ α) (c : κ → σ),
        left body ⟨c, queue, xs ++ (t, p) :: ys, finished⟩ =
          (queue.map (fun t => (t, body t)) ++ xs) ++
            (t, p) :: (ys ++ finished.map fun x => (x.1, .done x.2)) := by
      intro p c
      simp [left]
    exact h.act hkeys (hsplit _ _) (hsplit _ _) rfl
  | @finish cells' queue xs t a ys finished =>
    refine h.perm rfl ?_
    simp only [left, List.map_append, List.map_cons, List.map_nil, List.append_assoc,
      List.cons_append]
    refine List.Perm.append_left _ (List.Perm.append_left xs ?_)
    rw [← List.append_assoc]
    exact List.perm_append_singleton _ _

lemma Apart.reaches (hkeys : (tasks.map key).Nodup) (h : Apart key body tasks cells w)
    (hreach : Reaches key body jobs w w') : Apart key body tasks cells w' := by
  induction hreach with
  | refl => exact h
  | tail _ hstep ih => exact ih.step hkeys hstep

/-! ### The tasks one after another -/

lemma reaches_run (p : Script σ α) (t : τ) (queue : List τ) (xs ys : List (τ × Script σ α))
    (finished : List (τ × α)) (cells : κ → σ) :
    Reaches key body jobs ⟨cells, queue, xs ++ (t, p) :: ys, finished⟩
      ⟨Function.update cells (key t) (p.run (cells (key t))).2, queue, xs ++ ys,
        finished ++ [(t, (p.run (cells (key t))).1)]⟩ := by
  induction p generalizing cells with
  | done a =>
    rw [Script.run, Function.update_eq_self]
    exact Relation.ReflTransGen.single .finish
  | act f next ih =>
    have hnext := ih (cells (key t)) (Function.update cells (key t) (f (cells (key t))))
    rw [Function.update_self, Function.update_idem] at hnext
    exact Relation.ReflTransGen.head .act hnext

/-- With any number of workers, the tasks can run one after another. -/
lemma reaches_runAll (hjobs : 0 < jobs) (ts : List τ) (cells : κ → σ)
    (finished : List (τ × α)) :
    Reaches key body jobs ⟨cells, ts, [], finished⟩
      ⟨(runAll key body ts cells).2, [], [], finished ++ (runAll key body ts cells).1⟩ := by
  induction ts generalizing cells finished with
  | nil =>
    rw [runAll, List.append_nil]
    exact Relation.ReflTransGen.refl
  | cons t ts ih =>
    have hstart : Step key body jobs ⟨cells, t :: ts, [], finished⟩
        ⟨cells, ts, [] ++ [(t, body t)], finished⟩ := .start hjobs
    have hrest := ih (Function.update cells (key t) ((body t).run (cells (key t))).2)
      (finished ++ [(t, ((body t).run (cells (key t))).1)])
    rw [List.append_assoc, List.singleton_append] at hrest
    exact (Relation.ReflTransGen.head hstart (reaches_run (body t) t ts [] [] finished cells)).trans
      hrest

lemma exists_final (hjobs : 0 < jobs) (w : Pool τ κ σ α) :
    ∃ w', Reaches key body jobs w w' ∧ Final w' := by
  obtain ⟨cells, queue, running, finished⟩ := w
  induction running generalizing cells finished with
  | nil => exact ⟨_, reaches_runAll hjobs queue cells finished, rfl, rfl⟩
  | cons x running ih =>
    obtain ⟨w', hreach, hfinal⟩ := ih _ _
    exact ⟨w', (reaches_run x.2 x.1 queue [] running finished cells).trans hreach, hfinal⟩

/-- **Tasks on cells of their own leave the store and the results of the sequential run, in
every run of any number of workers.** -/
lemma Apart.eq_runAll (hkeys : (tasks.map key).Nodup)
    (hreach : Reaches key body jobs (initial tasks cells) w) (hw : Final w) :
    w.cells = (runAll key body tasks cells).2 ∧
      w.finished.Perm (runAll key body tasks cells).1 := by
  have h := apart_initial.reaches hkeys hreach
  have hsequential : Reaches key body 1 (initial tasks cells)
      ⟨(runAll key body tasks cells).2, [], [], [] ++ (runAll key body tasks cells).1⟩ :=
    reaches_runAll Nat.one_pos tasks cells []
  have hall := apart_initial.reaches hkeys hsequential
  refine ⟨funext fun k => ?_, (h.finished_eq hw).trans (hall.finished_eq ⟨rfl, rfl⟩).symm⟩
  by_cases hk : k ∈ tasks.map key
  · obtain ⟨t, ht, rfl⟩ := List.mem_map.mp hk
    exact (h.cells_eq hw ht).trans (hall.cells_eq ⟨rfl, rfl⟩ ht).symm
  · exact (h.others k hk).trans (hall.others k hk).symm

lemma runAll_fst (hkeys : (tasks.map key).Nodup) (cells : κ → σ) :
    (runAll key body tasks cells).1 =
      tasks.map fun t => (t, ((body t).run (cells (key t))).1) := by
  induction tasks generalizing cells with
  | nil => rfl
  | cons t ts ih =>
    rw [List.map_cons, List.nodup_cons] at hkeys
    have hne : ∀ t' ∈ ts, key t' ≠ key t := fun t' ht' heq =>
      hkeys.1 (heq ▸ List.mem_map_of_mem ht')
    simp only [runAll, List.map_cons, ih hkeys.2]
    congr 1
    refine List.map_congr_left fun t' ht' => ?_
    rw [Function.update_of_ne (hne t' ht')]

end DriverQueries.Workers
