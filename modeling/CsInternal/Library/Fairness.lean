import CsInternal.Library.Transition
import Mathlib.Algebra.Order.BigOperators.Group.Finset
import Mathlib.Order.WellFounded

/-!
# Fair executions

An execution goes on for ever; where nobody takes a step, the state stays.  It is fair
when everyone who is ready from some time on takes a step.  The rule of the module
shows that fair executions reach a goal: a rank in a well-founded order never grows,
and in every state short of the goal there is someone whose next step lowers it, and who
keeps this role until the step is taken.
-/

namespace CsInternal.Library

universe u v w x

namespace System

variable {σ : Type u} {α : Type v} {ι : Type w} {β : Type x}

structure Execution (S : System σ α) where
  state : ℕ → σ
  label : ℕ → Option α
  init : S.init (state 0)
  next : ∀ n, (label n).elim (state (n + 1) = state n) fun a => S.step (state n) a (state (n + 1))

namespace Execution

variable {S : System σ α}

/-- Whoever is ready from time `n` on is served. -/
def Fair (e : Execution S) (agent : α → ι) (ready : σ → ι → Prop) : Prop :=
  ∀ i n, (∀ m, n ≤ m → ready (e.state m) i) →
    ∃ m, n ≤ m ∧ ∃ a, e.label m = some a ∧ agent a = i

theorem reachable (e : Execution S) (n : ℕ) : S.Reachable (e.state n) := by
  induction n with
  | zero => exact .of_init e.init
  | succ n ih =>
      have hnext := e.next n
      cases hlabel : e.label n with
      | none =>
          rw [hlabel] at hnext
          have hsame : e.state (n + 1) = e.state n := hnext
          rw [hsame]
          exact ih
      | some a =>
          rw [hlabel] at hnext
          exact ih.step hnext

/-- The execution from time `n` on. -/
def drop (e : Execution S) (n : ℕ) (P : σ → Prop) (h : P (e.state n)) :
    Execution ⟨P, S.step⟩ where
  state m := e.state (n + m)
  label m := e.label (n + m)
  init := h
  next m := e.next (n + m)

/-- The execution as one of the cut-down system. -/
def restrict (e : Execution S) (admitted : σ → α → Prop)
    (h : ∀ n a, e.label n = some a → admitted (e.state n) a) :
    Execution (S.restrict admitted) where
  state := e.state
  label := e.label
  init := e.init
  next n := by
    have hnext := e.next n
    cases hlabel : e.label n with
    | none =>
        rw [hlabel] at hnext
        exact hnext
    | some a =>
        rw [hlabel] at hnext
        exact ⟨hnext, h n a hlabel⟩

/-- A run after which nobody takes a step. -/
theorem exists_of_run {s t : σ} {labels : List α} (hinit : S.init s) (hrun : S.Run s labels t) :
    ∃ e : Execution S, (∀ n, labels.length ≤ n → e.state n = t) ∧ ∀ n, e.label n = labels[n]? := by
  induction hrun with
  | refl => exact ⟨⟨fun _ => s, fun _ => none, hinit, fun _ => rfl⟩, fun _ _ => rfl, fun _ => rfl⟩
  | @tail t r labels a hearlier hstep ih =>
      obtain ⟨e, hend, hlabel⟩ := ih
      refine ⟨⟨fun n => if n ≤ labels.length then e.state n else r, fun n => (labels ++ [a])[n]?,
        ?_, fun n => ?_⟩, fun n hn => ?_, fun _ => rfl⟩
      · rw [if_pos (Nat.zero_le _)]
        exact e.init
      · obtain hbefore | rfl | hafter := Nat.lt_trichotomy n labels.length
        · rw [List.getElem?_append_left hbefore, ← hlabel, if_pos hbefore.le,
            if_pos (Nat.succ_le_of_lt hbefore)]
          exact e.next n
        · rw [List.getElem?_concat_length, if_pos (Nat.le_refl _),
            if_neg (Nat.not_succ_le_self _), hend _ (Nat.le_refl _)]
          exact hstep
        · have hnone : (labels ++ [a])[n]? = none := List.getElem?_eq_none (by
            rw [List.length_append, List.length_singleton]
            exact hafter)
          rw [hnone, if_neg (Nat.not_le_of_lt hafter), if_neg (by omega)]
          rfl
      · rw [List.length_append, List.length_singleton] at hn
        exact if_neg (Nat.not_le_of_lt hn)

/-- In the end nobody is ready. -/
theorem fair_of_end {e : Execution S} {agent : α → ι} {ready : σ → ι → Prop} {t : σ} {n : ℕ}
    (hend : ∀ m, n ≤ m → e.state m = t) (hidle : ∀ i, ¬ ready t i) : e.Fair agent ready := by
  intro i k hready
  have hlast := hready (k + n) (Nat.le_add_right k n)
  rw [hend _ (Nat.le_add_left n k)] at hlast
  exact absurd hlast (hidle i)

theorem Fair.drop {e : Execution S} {agent : α → ι} {ready : σ → ι → Prop}
    (hfair : e.Fair agent ready) (n : ℕ) (P : σ → Prop) (h : P (e.state n)) :
    (e.drop n P h).Fair agent ready := by
  intro i k hready
  have hlater : ∀ m, n + k ≤ m → ready (e.state m) i := by
    intro m hm
    obtain ⟨j, rfl⟩ := Nat.exists_eq_add_of_le hm
    rw [Nat.add_assoc]
    exact hready (k + j) (Nat.le_add_right k j)
  obtain ⟨m, hm, a, hlabel, hagent⟩ := hfair i (n + k) hlater
  obtain ⟨j, rfl⟩ := Nat.exists_eq_add_of_le hm
  rw [Nat.add_assoc] at hlabel
  exact ⟨k + j, Nat.le_add_right k j, a, hlabel, hagent⟩

end Execution

/-- What makes fair executions reach the goal. -/
structure Progress [LT β] (S : System σ α) (agent : α → ι) (ready : σ → ι → Prop)
    (goal : σ → Prop) (rank : σ → β) (helpful : σ → ι → Prop) : Prop where
  exists_helpful : ∀ s, S.Reachable s → ¬ goal s → ∃ i, helpful s i
  ready_of_helpful : ∀ s i, S.Reachable s → helpful s i → ready s i
  own : ∀ s a s', S.Reachable s → S.step s a s' → helpful s (agent a) → rank s' < rank s
  other : ∀ s a s' i, S.Reachable s → S.step s a s' → helpful s i → agent a ≠ i →
    rank s' < rank s ∨ rank s' = rank s ∧ helpful s' i

variable {S : System σ α} {agent : α → ι} {ready : σ → ι → Prop} {goal : σ → Prop}
  {helpful : σ → ι → Prop}

/-- The rule. -/
theorem Progress.eventually [LT β] [WellFoundedLT β] {rank : σ → β}
    (h : S.Progress agent ready goal rank helpful) (e : Execution S)
    (hfair : e.Fair agent ready) : ∃ n, goal (e.state n) := by
  suffices hall : ∀ r n, rank (e.state n) = r → ∃ n, goal (e.state n) from hall _ 0 rfl
  intro r
  induction r using WellFoundedLT.induction with
  | ind r ih =>
      intro n hn
      by_contra hnever
      rw [not_exists] at hnever
      have hstays : ∀ m, ¬ rank (e.state m) < r := fun m hlower =>
        absurd (ih _ hlower m rfl) (not_exists.mpr hnever)
      obtain ⟨i, hi⟩ := h.exists_helpful _ (e.reachable n) (hnever n)
      have hunserved : ∀ k a, rank (e.state (n + k)) = r → helpful (e.state (n + k)) i →
          e.label (n + k) = some a → agent a ≠ i := by
        intro k a hrank hhelpful hlabel hagent
        have hnext := e.next (n + k)
        rw [hlabel] at hnext
        rw [← hagent] at hhelpful
        have hlower := h.own _ a _ (e.reachable _) hnext hhelpful
        rw [hrank] at hlower
        exact hstays _ hlower
      -- the helper keeps its role, since the rank cannot fall any more
      have hkeeps : ∀ k, rank (e.state (n + k)) = r ∧ helpful (e.state (n + k)) i := by
        intro k
        induction k with
        | zero => exact ⟨hn, hi⟩
        | succ k ihk =>
            obtain ⟨hrank, hhelpful⟩ := ihk
            have hnext := e.next (n + k)
            cases hlabel : e.label (n + k) with
            | none =>
                rw [hlabel] at hnext
                have hsame : e.state (n + (k + 1)) = e.state (n + k) := hnext
                rw [hsame]
                exact ⟨hrank, hhelpful⟩
            | some a =>
                rw [hlabel] at hnext
                have hagent := hunserved k a hrank hhelpful hlabel
                obtain hlower | ⟨hsame, hstill⟩ :=
                  h.other _ a _ i (e.reachable _) hnext hhelpful hagent
                · rw [hrank] at hlower
                  exact absurd hlower (hstays (n + k + 1))
                · exact ⟨hsame.trans hrank, hstill⟩
      have hready : ∀ m, n ≤ m → ready (e.state m) i := by
        intro m hm
        obtain ⟨k, rfl⟩ := Nat.exists_eq_add_of_le hm
        exact h.ready_of_helpful _ _ (e.reachable _) (hkeeps k).2
      obtain ⟨m, hm, a, hlabel, hagent⟩ := hfair i n hready
      obtain ⟨k, rfl⟩ := Nat.exists_eq_add_of_le hm
      exact hunserved k a (hkeeps k).1 (hkeeps k).2 hlabel hagent

end System

/-- A rank added up over the agents falls when one of them comes nearer and no other moves. -/
theorem sum_lt_of_agent {ι : Type w} [Fintype ι] {rank rank' : ι → ℕ} (i : ι)
    (hlt : rank' i < rank i) (hother : ∀ j, j ≠ i → rank' j = rank j) :
    ∑ j, rank' j < ∑ j, rank j := by
  refine Finset.sum_lt_sum (fun j _ => ?_) ⟨i, Finset.mem_univ i, hlt⟩
  by_cases hj : j = i
  · rw [hj]
    exact Nat.le_of_lt hlt
  · exact Nat.le_of_eq (hother j hj)

end CsInternal.Library
