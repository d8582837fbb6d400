import Mathlib.Algebra.BigOperators.Group.Finset.Basic
import Mathlib.Data.Fintype.BigOperators
import CsInternal.Library.Transition

/-!
# The atomic shared counter

Threads increment one machine word, each increment in one indivisible step.
The word then always shows the number of increments of all threads together,
reduced modulo its width.  A program that simulates this system increment by
increment loses no update.
-/

namespace CsInternal.Library

universe u

/-- The word, with the number of increments of every thread. -/
structure SharedCounter (Tid : Type u) (w : Nat) where
  value : BitVec w
  count : Tid → Nat

namespace SharedCounter

variable {Tid : Type u} [DecidableEq Tid] {w : Nat}

def increment (s : SharedCounter Tid w) (t : Tid) : SharedCounter Tid w :=
  ⟨s.value + 1, Function.update s.count t (s.count t + 1)⟩

inductive Step : SharedCounter Tid w → Tid → SharedCounter Tid w → Prop where
  | increment (s : SharedCounter Tid w) (t : Tid) : Step s t (s.increment t)

/-- The counter starts at 0 and every thread has yet to increment it. -/
def system (Tid : Type u) [DecidableEq Tid] (w : Nat) :
    System (SharedCounter Tid w) Tid where
  init s := s.value = 0 ∧ ∀ t, s.count t = 0
  step := Step

variable [Fintype Tid]

/-- All increments so far. -/
def total (s : SharedCounter Tid w) : Nat := ∑ t, s.count t

theorem increment_total (s : SharedCounter Tid w) (t : Tid) :
    (s.increment t).total = s.total + 1 := by
  have hothers := Finset.sum_update_of_mem (Finset.mem_univ t) s.count (s.count t + 1)
  have hall := Finset.add_sum_erase Finset.univ s.count (Finset.mem_univ t)
  rw [Finset.sdiff_singleton_eq_erase] at hothers
  rw [total, total, increment, hothers, ← hall]
  omega

/-- The word shows the total, as far as its width goes. -/
def Exact (s : SharedCounter Tid w) : Prop := s.value = BitVec.ofNat w s.total

theorem Exact.init {s : SharedCounter Tid w} (hinit : (system Tid w).init s) : s.Exact := by
  have htotal : s.total = 0 := Finset.sum_eq_zero fun t _ => hinit.2 t
  rw [Exact, htotal]
  exact hinit.1

theorem Exact.step {s s' : SharedCounter Tid w} {t : Tid} (hs : s.Exact)
    (hstep : (system Tid w).step s t s') : s'.Exact := by
  cases hstep
  rw [Exact] at hs ⊢
  rw [increment_total, BitVec.ofNat_add, ← hs]
  rfl

/-- Whatever simulates the atomic counter shows the exact total. -/
theorem exact_of_simulation {σ α : Type} {C : System σ α} {visible : α → Option Tid}
    {R : σ → SharedCounter Tid w → Prop} (sim : C.Simulation (system Tid w) visible R)
    {s : σ} (hs : C.Reachable s) : ∃ c, R s c ∧ c.Exact := by
  obtain ⟨start, trace, hinit, hrun⟩ := hs
  obtain ⟨c₀, hc₀, hrel₀⟩ := sim.init start hinit
  obtain ⟨c, hcounter, hrel⟩ := sim.run hrun hrel₀
  have hkeep : ∀ a t b, a.Exact → (system Tid w).step a t b → b.Exact :=
    fun _ _ _ => Exact.step
  exact ⟨c, hrel, hcounter.preserves hkeep (.init hc₀)⟩

end SharedCounter

end CsInternal.Library
