import CsInternal.Library.Fairness
import CsInternal.Thread.CasCounter
import Mathlib.Data.Prod.Lex

/-!
# Termination of the compare-and-swap counter

A compare-and-swap of `increment` fails only after another one has succeeded.
Every step therefore brings the program nearer to its end, and it is enough for
termination that steps are taken, no matter by whom.
-/

namespace CsInternal.Thread.CasCounter

open CsInternal.Library

/-- The tests and successful swaps that are left, in steps. -/
def Point.work (iterations : Nat) : Point → Nat
  | .test i => 2 * (iterations - i) + 1
  | .load i | .swap i _ _ => 2 * (iterations - i)
  | .finished => 0

/-- How far a thread is from a swap that would succeed. -/
def Point.distance (counter : BitVec 32) : Point → Nat
  | .load _ => 1
  | .swap _ oldVal _ => if counter = oldVal then 0 else 2
  | _ => 0

variable {Tid : Type} [DecidableEq Tid] {iterations : Nat} {s s' : State Tid}
  {a : Action Tid}

theorem fits_of_reachable (hs : (program Tid iterations).Reachable s) (t : Tid) :
    (s.point t).Fits iterations := by
  obtain ⟨start, trace, hinit, hrun⟩ := hs
  obtain ⟨c, -, hstart⟩ := program_simulates_counter.init start hinit
  obtain ⟨c', -, hrel⟩ := program_simulates_counter.run hrun hstart
  exact hrel.fits t

section

variable [Fintype Tid]

def State.work (iterations : Nat) (s : State Tid) : Nat := ∑ t, (s.point t).work iterations

def State.distance (s : State Tid) : Nat := ∑ t, (s.point t).distance s.counter

def State.rank (iterations : Nat) (s : State Tid) : ℕ ×ₗ ℕ :=
  toLex (s.work iterations, s.distance)

/-- A step that completes a test or a swap. -/
theorem work_setPoint_lt {counter : BitVec 32} {t : Tid} {point : Point}
    (hlt : point.work iterations < (s.point t).work iterations) :
    ({ s with counter := counter }.setPoint t point).rank iterations < s.rank iterations := by
  refine Prod.Lex.toLex_lt_toLex.mpr (.inl (sum_lt_of_agent t ?_ fun u hu => ?_))
  · rw [State.setPoint_point, if_pos rfl]
    exact hlt
  · rw [State.setPoint_point, if_neg hu]

/-- A step that brings its thread nearer to a swap. -/
theorem distance_setPoint_lt {t : Tid} {point : Point}
    (hsame : point.work iterations = (s.point t).work iterations)
    (hlt : point.distance s.counter < (s.point t).distance s.counter) :
    (s.setPoint t point).rank iterations < s.rank iterations := by
  refine Prod.Lex.toLex_lt_toLex.mpr (.inr ⟨Finset.sum_congr rfl fun u _ => ?_, ?_⟩)
  · rw [State.setPoint_point]
    split
    · rename_i hu
      rw [hu, hsame]
    · rfl
  · refine sum_lt_of_agent t ?_ fun u hu => ?_
    · rw [State.setPoint_point, if_pos rfl]
      exact hlt
    · rw [State.setPoint_point, if_neg hu, State.setPoint_counter]

theorem Step.rank_lt (hfits : ∀ t, (s.point t).Fits iterations)
    (hstep : Step iterations s a s') : s'.rank iterations < s.rank iterations := by
  cases hstep with
  | test t i hpoint =>
      refine work_setPoint_lt ?_
      rw [hpoint]
      split
      · exact Nat.lt_succ_self _
      · exact Nat.succ_pos _
  | load t i hpoint =>
      refine distance_setPoint_lt ?_ ?_
      · rw [hpoint]
        rfl
      · rw [hpoint, Point.distance, Point.distance, if_pos rfl]
        exact Nat.one_pos
  | compareAndSwap t i oldVal newVal eax word zf swapped hpoint hcall =>
      rw [compareAndSwap_eq] at hcall
      by_cases hequal : s.counter = oldVal
      · rw [if_pos hequal] at hcall
        cases hcall
        have hfit := hfits t
        rw [hpoint] at hfit
        have hlt : i < iterations := hfit.1
        refine work_setPoint_lt ?_
        rw [hpoint, if_pos rfl, Point.work, Point.work]
        omega
      · rw [if_neg hequal] at hcall
        cases hcall
        refine distance_setPoint_lt ?_ ?_
        · rw [hpoint]
          rfl
        · rw [hpoint, Point.distance, if_neg hequal]
          exact Nat.one_lt_two

/-- Somebody has still to return from `increment`. -/
def State.Running (s : State Tid) : Prop := ∃ t, s.point t ≠ .finished

theorem program_progress : (program Tid iterations).Progress (fun _ => ())
    (fun s _ => s.Running) (fun s => ¬ s.Running) (State.rank iterations)
    (fun s _ => s.Running) where
  exists_helpful _ _ hrunning := ⟨(), not_not.mp hrunning⟩
  ready_of_helpful _ _ _ hrunning := hrunning
  own _ _ _ hs hstep _ := hstep.rank_lt (fits_of_reachable hs)
  other _ _ _ _ hs hstep _ _ := .inl (hstep.rank_lt (fits_of_reachable hs))

/-- As long as steps are taken at all, all threads return from `increment`, and `counter`
is then their number times the bound of the loop. -/
theorem increment_terminates (e : (program Tid iterations).Execution)
    (hfair : e.Fair (fun _ => ()) fun s _ => s.Running) :
    ∃ n, (∀ t, (e.state n).point t = .finished) ∧
      (e.state n).counter = BitVec.ofNat 32 (Fintype.card Tid * iterations) := by
  obtain ⟨n, hnone⟩ := program_progress.eventually e hfair
  have hfinished : ∀ t, (e.state n).point t = .finished := by
    simpa [State.Running] using hnone
  obtain ⟨c, hrel, hexact⟩ :=
    SharedCounter.exact_of_simulation program_simulates_counter (e.reachable n)
  have htotal : c.total = ∑ t : Tid, iterations :=
    Finset.sum_congr rfl fun t _ => by rw [hrel.counted t, hfinished t]; rfl
  refine ⟨n, hfinished, ?_⟩
  rw [← hrel.value, hexact, htotal]
  simp

end

/-- Both threads return, although the first swap of thread 0 fails. -/
theorem increment_terminates_sample : ∃ e : (program (Fin 2) 1).Execution,
    (e.Fair (fun _ => ()) fun s _ => s.Running) ∧
      (∃ n, e.label n = some (.compareAndSwap 0 false)) ∧
      ∃ n, (∀ t, (e.state n).point t = .finished) ∧
        (e.state n).counter = BitVec.ofNat 32 (2 * 1) := by
  obtain ⟨s, hrun, hfinished⟩ := retried_run
  have hinit : (program (Fin 2) 1).init ⟨0, fun _ => .test 0⟩ := ⟨rfl, fun _ => rfl⟩
  obtain ⟨e, hend, hlabel⟩ := System.Execution.exists_of_run hinit hrun
  have hfair : e.Fair (fun _ => ()) fun s _ => s.Running :=
    System.Execution.fair_of_end hend fun _ ⟨t, ht⟩ => ht (hfinished t)
  exact ⟨e, hfair, ⟨5, hlabel 5⟩, increment_terminates e hfair⟩

end CsInternal.Thread.CasCounter
