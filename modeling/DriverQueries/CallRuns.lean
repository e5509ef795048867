import DriverQueries.Paths

/-!
Runs with calls.

A run is in a state of its current activation, above the calls that have not returned. What an
activation does is described without the stack: steps of its own, and calls from which it goes on
when they return. A state is reached by a run iff it can be entered through a chain of calls and
then be come to within one activation.
-/

namespace DriverQueries.CallRuns

open Relation DriverQueries.Paths

variable {σ μ : Type*}

/-- The steps of activations. `call s m t`: in `s` the call `m` begins an activation in `t`.
`ret m s t`: the activation of `m` that ends in `s` returns to `t`. -/
structure System (σ μ : Type*) where
  start : σ → Prop
  step : σ → σ → Prop
  call : σ → μ → σ → Prop
  ret : μ → σ → σ → Prop

variable (S : System σ μ)

/-- A step of a run, with the calls that have not returned. -/
inductive Step : σ × List μ → σ × List μ → Prop
  | step {s t : σ} {frames : List μ} (h : S.step s t) : Step (s, frames) (t, frames)
  | enter {s t : σ} {m : μ} {frames : List μ} (h : S.call s m t) :
      Step (s, frames) (t, m :: frames)
  | leave {s t : σ} {m : μ} {frames : List μ} (h : S.ret m s t) :
      Step (s, m :: frames) (t, frames)

def Start (c : σ × List μ) : Prop := S.start c.1 ∧ c.2 = []

/-- What one activation does, with the activations it calls. -/
inductive Local : σ → σ → Prop
  | refl {s : σ} : Local s s
  | step {s t u : σ} (h : Local s t) (hstep : S.step t u) : Local s u
  | call {s t u v w : σ} {m : μ} (h : Local s t) (hcall : S.call t m u) (hbody : Local u v)
      (hret : S.ret m v w) : Local s w

/-- The state begins an activation. -/
inductive Entered : σ → Prop
  | start {s : σ} (h : S.start s) : Entered s
  | call {s t u : σ} {m : μ} (h : Entered s) (hlocal : Local S s t) (hcall : S.call t m u) :
      Entered u

/-- Each activation of the stack has come to its state on its own. -/
def Stacked : σ → List μ → Prop
  | t, [] => ∃ s, S.start s ∧ Local S s t
  | t, m :: frames => ∃ s u, Stacked s frames ∧ S.call s m u ∧ Local S u t

variable {S} {s t u : σ} {frames : List μ}

lemma Local.trans (h : Local S s t) (h' : Local S t u) : Local S s u := by
  induction h' with
  | refl => exact h
  | step _ hstep ih => exact (ih h).step hstep
  | call _ hcall hbody hret ih _ => exact (ih h).call hcall hbody hret

lemma Stacked.extend (h : Stacked S s frames) (hlocal : Local S s t) : Stacked S t frames := by
  cases frames with
  | nil =>
    obtain ⟨r, hr, hrs⟩ := h
    exact ⟨r, hr, hrs.trans hlocal⟩
  | cons m frames =>
    obtain ⟨r, u, hr, hcall, hus⟩ := h
    exact ⟨r, u, hr, hcall, hus.trans hlocal⟩

lemma Stacked.run_step {c c' : σ × List μ} (h : Stacked S c.1 c.2) (hstep : Step S c c') :
    Stacked S c'.1 c'.2 := by
  cases hstep with
  | step hstep => exact h.extend (.step .refl hstep)
  | enter hcall => exact ⟨_, _, h, hcall, .refl⟩
  | leave hret =>
    obtain ⟨r, u, hr, hcall, hlocal⟩ := h
    exact hr.extend (.call .refl hcall hlocal hret)

lemma stacked_of_reached {c : σ × List μ} (h : Reached (Step S) (Start S) c) :
    Stacked S c.1 c.2 := by
  obtain ⟨s, ⟨hstart, hframes⟩, hrun⟩ := h
  induction hrun with
  | refl =>
    rw [hframes]
    exact ⟨s.1, hstart, .refl⟩
  | tail _ hstep ih => exact ih.run_step hstep

lemma Stacked.exists_entered (h : Stacked S t frames) : ∃ s, Entered S s ∧ Local S s t := by
  induction frames generalizing t with
  | nil =>
    obtain ⟨s, hs, hlocal⟩ := h
    exact ⟨s, .start hs, hlocal⟩
  | cons m frames ih =>
    obtain ⟨s, u, hs, hcall, hlocal⟩ := h
    obtain ⟨r, hr, hrs⟩ := ih hs
    exact ⟨u, hr.call hrs hcall, hlocal⟩

lemma Local.run (h : Local S s t) (frames : List μ) :
    ReflTransGen (Step S) (s, frames) (t, frames) := by
  induction h generalizing frames with
  | refl => exact .refl
  | step _ hstep ih => exact (ih frames).tail (.step hstep)
  | call _ hcall _ hret ih ihbody =>
    exact (((ih frames).tail (.enter hcall)).trans (ihbody _)).tail (.leave hret)

lemma Entered.reached (h : Entered S s) : ∃ frames, Reached (Step S) (Start S) (s, frames) := by
  induction h with
  | start hs => exact ⟨[], (_, []), ⟨hs, rfl⟩, .refl⟩
  | call _ hlocal hcall ih =>
    obtain ⟨frames, hreached⟩ := ih
    exact ⟨_ :: frames, hreached.trans ((hlocal.run frames).tail (.enter hcall))⟩

/-- **A run comes to a state iff a chain of calls begins an activation that comes to it.** -/
theorem exists_reached_iff :
    (∃ frames, Reached (Step S) (Start S) (t, frames)) ↔ ∃ s, Entered S s ∧ Local S s t := by
  refine ⟨fun h => ?_, fun h => ?_⟩
  · obtain ⟨frames, hreached⟩ := h
    exact (stacked_of_reached hreached).exists_entered
  · obtain ⟨s, hentered, hlocal⟩ := h
    obtain ⟨frames, hreached⟩ := hentered.reached
    exact ⟨frames, hreached.trans (hlocal.run frames)⟩

end DriverQueries.CallRuns
