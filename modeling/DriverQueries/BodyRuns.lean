import DriverQueries.CallRuns
import DriverQueries.Database

/-!
Runs through the bodies of functions.

A run goes along the edges of the control flow, into the bodies of the functions that it calls, and
from their exits back to the calls. What it comes to is described by the edges and by which
functions call which.
-/

namespace DriverQueries.BodyRuns

open Relation DriverQueries.Database DriverQueries.Paths DriverQueries.CallRuns

variable {Fn Node : Type} (P : Program Fn Node) (start : Node → Prop)

/-- The runs from the nodes, where a function without a body does nothing. -/
def system : System Node Node where
  start := start
  step n m := P.Edge n m ∧ ∀ g ∈ P.getTarget m, P.getBlock g = none
  call n m b := P.Edge n m ∧ ∃ g ∈ P.getTarget m, b ∈ P.getBlock g
  ret m n m' := m' = m ∧ ∃ g ∈ P.getTarget m, n = P.exitNode g

def RunComesTo (n : Node) : Prop :=
  ∃ frames, Reached (Step (system P start)) (Start (system P start)) (n, frames)

def Calls (f g : Fn) : Prop := ∃ n, P.getControlFlowScope n = some f ∧ P.getTarget n = some g

/-- The functions with bodies return, and paths lead to all nodes of their bodies. -/
structure Feasible : Prop where
  returns : ∀ g, ∀ b ∈ P.getBlock g, Local (system P fun _ => False) b (P.exitNode g)
  visits : ∀ f, ∀ b ∈ P.getBlock f, ∀ n, P.getControlFlowScope n = some f → ReflTransGen P.Edge b n
  blocks : ∀ f, ∀ b ∈ P.getBlock f, P.getTarget b = none
  bodies : ∀ n f, P.getControlFlowScope n = some f → (P.getTarget n).isSome → (P.getBlock f).isSome

variable {P start} {start' : Node → Prop} {n m b : Node} {f g : Fn}

lemma reach_of_local (h : Local (system P start) n m) : ReflTransGen P.Edge n m := by
  induction h with
  | refl => exact .refl
  | step _ hstep ih => exact ih.tail hstep.1
  | call _ hcall _ hret ih _ => exact hret.1 ▸ ih.tail hcall.1

lemma local_start (h : Local (system P start) n m) : Local (system P start') n m := by
  induction h with
  | refl => exact .refl
  | step _ hstep ih => exact ih.step hstep
  | call _ hcall _ hret ih ihbody => exact ih.call hcall ihbody hret

lemma local_of_reach (hfeasible : Feasible P) (h : ReflTransGen P.Edge n m) :
    Local (system P start) n m := by
  induction h with
  | refl => exact .refl
  | @tail x y _ hedge ih =>
    by_cases hbody : ∃ g ∈ P.getTarget y, (P.getBlock g).isSome
    · obtain ⟨g, hg, hblock⟩ := hbody
      obtain ⟨b, hb⟩ := Option.isSome_iff_exists.mp hblock
      exact ih.call ⟨hedge, g, hg, hb⟩ (local_start (hfeasible.returns g b hb)) ⟨rfl, g, hg, rfl⟩
    · refine ih.step ⟨hedge, fun g hg => ?_⟩
      exact Option.not_isSome_iff_eq_none.mp fun hblock => hbody ⟨g, hg, hblock⟩

variable (P) in
/-- The node is in the function, or in one that it calls, directly or not. -/
def Under (f : Fn) (n : Node) : Prop :=
  ∃ g, ReflTransGen (Calls P) f g ∧ P.getControlFlowScope n = some g

variable (P) in
/-- A path from the node leads to the other, or to a call of a function that the other is under. -/
def LeadsTo (s n : Node) : Prop :=
  ReflTransGen P.Edge s n ∨ ∃ m g, TransGen P.Edge s m ∧ P.getTarget m = some g ∧ Under P g n

lemma LeadsTo.of_local {s : Node} (h : LeadsTo P s n) (hlocal : Local (system P start) n m) :
    LeadsTo P s m := by
  have hreach := reach_of_local hlocal
  rcases h with h | ⟨k, g, hk, hg, f, hf, hn⟩
  · exact .inl (h.trans hreach)
  · exact .inr ⟨k, g, hk, hg, f, hf, (P.reach_scope hreach).trans hn⟩

lemma LeadsTo.call {s : Node} (h : LeadsTo P s n) (hedge : P.Edge n m) (hg : P.getTarget m = some g)
    (hb : b ∈ P.getBlock g) : LeadsTo P s b := by
  have hscope := P.block_scope g b hb
  rcases h with h | ⟨k, g', hk, hg', f, hf, hn⟩
  · exact .inr ⟨m, g, .tail' h hedge, hg, g, .refl, hscope⟩
  · have hcall : Calls P f g := ⟨m, (P.successor_scope _ _ hedge).trans hn, hg⟩
    exact .inr ⟨k, g', hk, hg', g, hf.tail hcall, hscope⟩

lemma leadsTo_of_entered (h : Entered (system P start) n) : ∃ s, start s ∧ LeadsTo P s n := by
  induction h with
  | start h => exact ⟨_, h, .inl .refl⟩
  | call _ hlocal hcall ih =>
    obtain ⟨s, hs, hlead⟩ := ih
    obtain ⟨hedge, g, hg, hb⟩ := hcall
    exact ⟨s, hs, (hlead.of_local hlocal).call hedge hg hb⟩

/-- What runs come to is led to from a start. -/
theorem leadsTo_of_runComesTo (h : RunComesTo P start n) : ∃ s, start s ∧ LeadsTo P s n := by
  obtain ⟨t, hentered, hlocal⟩ := exists_reached_iff.mp h
  obtain ⟨s, hs, hlead⟩ := leadsTo_of_entered hentered
  exact ⟨s, hs, hlead.of_local hlocal⟩

lemma transGen_of_call (hfeasible : Feasible P) (hb : b ∈ P.getBlock f)
    (hm : P.getControlFlowScope m = some f) (hcall : (P.getTarget m).isSome) :
    TransGen P.Edge b m := by
  rcases reflTransGen_iff_eq_or_transGen.mp (hfeasible.visits f b hb m hm) with rfl | h
  · simp [hfeasible.blocks f _ hb] at hcall
  · exact h

lemma entered_of_calls (hfeasible : Feasible P) (hentered : Entered (system P start) n)
    (hn : n ∈ P.getBlock f) (h : ReflTransGen (Calls P) f g) (hb : b ∈ P.getBlock g) :
    Entered (system P start) b := by
  induction h generalizing b with
  | refl => exact (Option.some.inj (hn.symm.trans hb)) ▸ hentered
  | @tail f' g _ hcall ih =>
    obtain ⟨k, hscope, hg⟩ := hcall
    have hcalled : (P.getTarget k).isSome := by simp [hg]
    obtain ⟨b', hb'⟩ := Option.isSome_iff_exists.mp (hfeasible.bodies k f' hscope hcalled)
    obtain ⟨t, ht, hedge⟩ := TransGen.tail'_iff.mp (transGen_of_call hfeasible hb' hscope hcalled)
    exact (ih hb').call (local_of_reach hfeasible ht) ⟨hedge, g, hg, hb⟩

lemma isSome_of_calls (hfeasible : Feasible P) (h : ReflTransGen (Calls P) f g)
    (hg : (P.getBlock g).isSome) : (P.getBlock f).isSome := by
  rcases h.cases_head with rfl | ⟨k, ⟨m, hm, hk⟩, -⟩
  · exact hg
  · exact hfeasible.bodies m f hm (by simp [hk])

lemma LeadsTo.under (h : LeadsTo P b n) (hb : b ∈ P.getBlock f) : Under P f n := by
  have hscope := P.block_scope f b hb
  rcases h with h | ⟨m, g, hm, hg, g', hg', hn⟩
  · exact ⟨f, .refl, (P.reach_scope h).trans hscope⟩
  · exact ⟨g', .head ⟨m, (P.reach_scope hm.to_reflTransGen).trans hscope, hg⟩ hg', hn⟩

lemma leadsTo_iff_under (hfeasible : Feasible P) (hb : b ∈ P.getBlock f) :
    LeadsTo P b n ↔ Under P f n := by
  refine ⟨fun h => h.under hb, ?_⟩
  rintro ⟨g, hg, hn⟩
  rcases hg.cases_head with rfl | ⟨g', ⟨m, hm, hg'⟩, hchain⟩
  · exact .inl (hfeasible.visits f b hb n hn)
  · exact .inr ⟨m, g', transGen_of_call hfeasible hb hm (by simp [hg']), hg', g, hchain, hn⟩

/-- **A run comes to a node of a body iff a start leads to it**, where functions return and paths
lead to all nodes of their bodies. -/
theorem runComesTo_iff (hfeasible : Feasible P)
    (hbody : ∀ f, P.getControlFlowScope n = some f → (P.getBlock f).isSome) :
    RunComesTo P start n ↔ ∃ s, start s ∧ LeadsTo P s n := by
  refine ⟨leadsTo_of_runComesTo, ?_⟩
  rintro ⟨s, hs, h | ⟨m, g, hm, hg, f, hf, hn⟩⟩
  · exact exists_reached_iff.mpr ⟨s, .start hs, local_of_reach hfeasible h⟩
  · obtain ⟨b, hb⟩ := Option.isSome_iff_exists.mp (hbody f hn)
    obtain ⟨b', hb'⟩ :=
      Option.isSome_iff_exists.mp (isSome_of_calls hfeasible hf (by simp [Option.mem_def.mp hb]))
    obtain ⟨t, ht, hedge⟩ := TransGen.tail'_iff.mp hm
    have hcalled : Entered (system P start) b' :=
      (Entered.start hs).call (local_of_reach hfeasible ht) ⟨hedge, g, hg, hb'⟩
    have hentered := entered_of_calls hfeasible hcalled hb' hf hb
    exact exists_reached_iff.mpr
      ⟨b, hentered, local_of_reach hfeasible (hfeasible.visits f b hb n hn)⟩

end DriverQueries.BodyRuns
