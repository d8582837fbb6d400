import CsInternal.Library.Transition
import Mathlib.Algebra.BigOperators.Group.Finset.Basic

/-!
# Accounting over runs

Steps that spend and steps that earn.  Where every step that spends is paid for by the
step itself or by a charge that the state has kept, so is the whole run.
-/

namespace CsInternal.Library

universe u v w x

variable {σ : Type u} {α : Type v}

/-- Along a run, as many steps spend as have earned, and what the charge has lost. -/
theorem System.Run.account {S : System σ α} {P : σ → Prop} {charge : σ → ℕ}
    {spends earns : α → Bool}
    (hstep : ∀ s a t, P s → S.step s a t →
      P t ∧ charge t + (spends a).toNat ≤ charge s + (earns a).toNat)
    {s t : σ} {trace : List α} (hrun : S.Run s trace t) (hs : P s) :
    P t ∧ charge t + trace.countP spends ≤ charge s + trace.countP earns := by
  induction hrun with
  | refl => exact ⟨hs, by simp⟩
  | @tail middle last trace a hearlier hlast ih =>
      obtain ⟨hmiddle, hpaid⟩ := ih
      obtain ⟨hkept, hpays⟩ := hstep middle a last hmiddle hlast
      refine ⟨hkept, ?_⟩
      have hspends : [a].countP spends = (spends a).toNat := by
        cases hspent : spends a <;> simp [hspent]
      have hearns : [a].countP earns = (earns a).toNat := by
        cases hearnt : earns a <;> simp [hearnt]
      rw [List.countP_append, List.countP_append, hspends, hearns]
      omega

/-- A weight added up over the agents, when one of them moves. -/
theorem sum_update_add {ι : Type w} {β : Type x} [Fintype ι] [DecidableEq ι] (weight : β → ℕ)
    (f : ι → β) (i : ι) (b : β) :
    ∑ j, weight (Function.update f i b j) + weight (f i) = ∑ j, weight (f j) + weight b := by
  have hothers : ∑ j ∈ Finset.univ.erase i, weight (Function.update f i b j) =
      ∑ j ∈ Finset.univ.erase i, weight (f j) := by
    refine Finset.sum_congr rfl fun j hj => ?_
    rw [Function.update_of_ne (Finset.ne_of_mem_erase hj)]
  rw [← Finset.add_sum_erase Finset.univ _ (Finset.mem_univ i),
    ← Finset.add_sum_erase Finset.univ (fun j => weight (f j)) (Finset.mem_univ i), hothers,
    Function.update_self]
  omega

end CsInternal.Library
