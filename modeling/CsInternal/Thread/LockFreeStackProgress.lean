import CsInternal.Library.Fairness
import CsInternal.Thread.LockFreeStackLinear
import Mathlib.Data.Prod.Lex

/-!
# Lock freedom of the stack of `atomic/test.cpp`

A compare-and-swap of `top` fails only after another call has changed `top`, and a call
changes it once.  Between two returns there is therefore only a bounded number of steps:
as long as calls are running, one after the other returns, whoever is scheduled.
-/

namespace CsInternal.Thread.LockFreeStack

open CsInternal.Library

/-- Whether the thread can still take effect before it returns from a call. -/
def Pc.effects {Addr : Type} : Pc Addr → Nat
  | .pushReturn | .popData _ | .popFalse => 0
  | _ => 1

/-- How far a thread is from taking effect, a snapshot of `top` that has gone stale
costing another round. -/
def Pc.distance {Addr : Type} [DecidableEq Addr] (top : Option Addr) : Pc Addr → Nat
  | .idle => 5
  | .pushNew _ => 4
  | .pushLoad _ | .popLoad => 3
  | .pushLink _ oldTop => if top = oldTop then 2 else 5
  | .pushCas _ oldTop => if top = oldTop then 1 else 4
  | .popNext oldTop => if top = some oldTop then 2 else 5
  | .popCas oldTop _ => if top = some oldTop then 1 else 4
  | .pushReturn | .popData _ | .popFalse => 0

variable {Tid Addr : Type} [DecidableEq Tid] [DecidableEq Addr] {s s' : State Tid Addr}
  {l : Option (Event Tid Op Ret)}

omit [DecidableEq Addr] in
theorem State.setPc_top (s : State Tid Addr) (t : Tid) (pc : Pc Addr) :
    (s.setPc t pc).top = s.top := rfl

/-- The step is the return from a call. -/
def Returns : Option (Event Tid Op Ret) → Prop
  | some (.respond _ _) => True
  | _ => False

/-- Somebody is in a call. -/
def State.Running (s : State Tid Addr) : Prop := ∃ t, s.pc t ≠ .idle

/-- A thread stays in its call until it returns. -/
theorem Step.keeps_call (hstep : Step s l s') (hquiet : ¬ Returns l) {t : Tid}
    (ht : s.pc t ≠ .idle) : s'.pc t ≠ .idle := by
  cases hstep with
  | pushReturn | popReturn | popReturnFalse => exact absurd trivial hquiet
  | _ =>
      rw [State.setPc_apply]
      split
      · intro hidle
        cases hidle
      · exact ht

section

variable [Fintype Tid]

def State.effects (s : State Tid Addr) : Nat := ∑ t, (s.pc t).effects

def State.distance (s : State Tid Addr) : Nat := ∑ t, (s.pc t).distance s.top

def State.rank (s : State Tid Addr) : ℕ ×ₗ ℕ := toLex (s.effects, s.distance)

/-- A step that takes effect. -/
theorem rank_lt_of_effect {t : Tid} {old new : Pc Addr} (hat : s.pc t = old)
    (hpc : s'.pc = s.pc) (hlt : new.effects < old.effects) : (s'.setPc t new).rank < s.rank := by
  refine Prod.Lex.toLex_lt_toLex.mpr (.inl (sum_lt_of_agent t ?_ fun u hu => ?_))
  · rw [State.setPc_apply, if_pos rfl, hat]
    exact hlt
  · rw [State.setPc_apply, if_neg hu, hpc]

/-- A step that brings its thread nearer to taking effect. -/
theorem rank_lt_of_distance {t : Tid} {old new : Pc Addr} (hat : s.pc t = old)
    (hpc : s'.pc = s.pc) (htop : s'.top = s.top) (hsame : new.effects = old.effects)
    (hlt : new.distance s.top < old.distance s.top) : (s'.setPc t new).rank < s.rank := by
  refine Prod.Lex.toLex_lt_toLex.mpr (.inr ⟨Finset.sum_congr rfl fun u _ => ?_, ?_⟩)
  · rw [State.setPc_apply, hpc]
    split
    · rename_i hu
      rw [hu, hat, hsame]
    · rfl
  · refine sum_lt_of_agent t ?_ fun u hu => ?_
    · rw [State.setPc_apply, if_pos rfl, State.setPc_top, htop, hat]
      exact hlt
    · rw [State.setPc_apply, if_neg hu, State.setPc_top, hpc, htop]

theorem Step.rank_lt (hstep : Step s l s') (hquiet : ¬ Returns l) : s'.rank < s.rank := by
  cases hstep with
  | pushReturn | popReturn | popReturnFalse => exact absurd trivial hquiet
  | pushCasDone t newTop oldTop node hpc => exact rank_lt_of_effect hpc rfl Nat.one_pos
  | popCasDone t oldTop next node hpc => exact rank_lt_of_effect hpc rfl Nat.one_pos
  | popLoadNull t hpc => exact rank_lt_of_effect hpc rfl Nat.one_pos
  | callPush t val hpc => exact rank_lt_of_distance hpc rfl rfl rfl (Nat.lt_succ_self 4)
  | callPop t hpc => exact rank_lt_of_distance hpc rfl rfl rfl (Nat.lt_add_of_pos_right Nat.two_pos)
  | pushNew t val a hpc => exact rank_lt_of_distance hpc rfl rfl rfl (Nat.lt_succ_self 3)
  | pushLoad t newTop hpc =>
      refine rank_lt_of_distance hpc rfl rfl rfl ?_
      rw [Pc.distance, Pc.distance, if_pos rfl]
      exact Nat.lt_succ_self 2
  | popLoad t oldTop hpc htop =>
      refine rank_lt_of_distance hpc rfl rfl rfl ?_
      rw [Pc.distance, Pc.distance, if_pos htop]
      exact Nat.lt_succ_self 2
  | pushLink t newTop oldTop node hpc =>
      refine rank_lt_of_distance hpc rfl rfl rfl ?_
      rw [Pc.distance, Pc.distance]
      split
      · exact Nat.lt_succ_self 1
      · exact Nat.lt_succ_self 4
  | popNext t oldTop node hpc =>
      refine rank_lt_of_distance hpc rfl rfl rfl ?_
      rw [Pc.distance, Pc.distance]
      split
      · exact Nat.lt_succ_self 1
      · exact Nat.lt_succ_self 4
  | pushCasRetry t newTop oldTop hpc htop =>
      refine rank_lt_of_distance hpc rfl rfl rfl ?_
      rw [Pc.distance, Pc.distance, if_neg htop]
      exact Nat.lt_succ_self 3
  | popCasRetry t oldTop next hpc htop =>
      refine rank_lt_of_distance hpc rfl rfl rfl ?_
      rw [Pc.distance, Pc.distance, if_neg htop]
      exact Nat.lt_succ_self 3

/-- The stack while the thread stays in its call and nobody returns. -/
def unanswered (t : Tid) : System (State Tid Addr) (Option (Event Tid Op Ret)) :=
  System.restrict ⟨fun s => s.pc t ≠ .idle, Step⟩ fun _ l => ¬ Returns l

theorem unanswered_progress (t : Tid) :
    (unanswered t : System (State Tid Addr) _).Progress (fun _ => ()) (fun s _ => s.Running)
      (fun _ => False) State.rank fun s _ => s.pc t ≠ .idle where
  exists_helpful s hs _ := by
    refine ⟨(), hs.invariant (fun _ hinit => hinit) ?_⟩
    intro s l s' ht hstep
    exact hstep.1.keeps_call hstep.2 ht
  ready_of_helpful _ _ _ ht := ⟨t, ht⟩
  own _ _ _ _ hstep _ := hstep.1.rank_lt hstep.2
  other _ _ _ _ _ _ _ hagent := absurd rfl hagent

/--
The stack is lock-free: whenever a thread is in a call and steps are taken as long as
somebody is, some thread returns from its call, whatever the schedule.
-/
theorem stack_lock_free (e : (stack Tid Addr).Execution) {n : ℕ} {t : Tid}
    (hcall : (e.state n).pc t ≠ .idle) (hsteps : e.Fair (fun _ => ()) fun s _ => s.Running) :
    ∃ m u ret, n ≤ m ∧ e.label m = some (some (.respond u ret)) := by
  by_contra hnever
  have hquiet : ∀ m l, e.label (n + m) = some l → ¬ Returns l := by
    intro m l hlabel hreturns
    obtain _ | _ | _ | ⟨u, ret⟩ := l
    · exact hreturns
    · exact hreturns
    · exact hreturns
    · exact hnever ⟨n + m, u, ret, Nat.le_add_right n m, hlabel⟩
  let suffix : (unanswered t).Execution :=
    (e.drop n (fun s => s.pc t ≠ .idle) hcall).restrict (fun _ l => ¬ Returns l) hquiet
  have hfair : suffix.Fair (fun _ => ()) fun s _ => s.Running :=
    hsteps.drop n (fun s => s.pc t ≠ .idle) hcall
  obtain ⟨_, hfalse⟩ := (unanswered_progress t).eventually suffix hfair
  exact hfalse

end

/-! Threads `false` and `true` have loaded a null `top`, and `true` is the first to swap. -/

def racedNext : ℕ → State Bool Nat → State Bool Nat
  | 0, s => s.setPc false (.pushNew 7)
  | 1, s => s.setPc true (.pushNew 8)
  | 2, s => (s.store 0 (.new 7)).setPc false (.pushLoad 0)
  | 3, s => (s.store 1 (.new 8)).setPc true (.pushLoad 1)
  | 4, s => s.setPc false (.pushLink 0 none)
  | 5, s => s.setPc true (.pushLink 1 none)
  | 6, s => (s.store 0 ⟨7, none⟩).setPc false (.pushCas 0 none)
  | 7, s => (s.store 1 ⟨8, none⟩).setPc true (.pushCas 1 none)
  | 8, s => (s.setTop (some 1)).setPc true .pushReturn
  | 9, s => s.setPc true .idle
  | 10, s => s.setPc false (.pushLoad 0)
  | 11, s => s.setPc false (.pushLink 0 (some 1))
  | 12, s => (s.store 0 ⟨7, some 1⟩).setPc false (.pushCas 0 (some 1))
  | 13, s => (s.setTop (some 0)).setPc false .pushReturn
  | 14, s => s.setPc false .idle
  | _, s => s

def racedState : ℕ → State Bool Nat
  | 0 => ⟨fun _ => none, none, fun _ => .idle⟩
  | n + 1 => racedNext n (racedState n)

def racedLabel : ℕ → Option (Option (Event Bool Op Ret))
  | 0 => some (some (.invoke false (.push 7)))
  | 1 => some (some (.invoke true (.push 8)))
  | 2 | 3 | 4 | 5 | 6 | 7 | 10 | 11 | 12 => some none
  | 8 => some (some (.commit true (.push 8) .pushed))
  | 9 => some (some (.respond true .pushed))
  | 13 => some (some (.commit false (.push 7) .pushed))
  | 14 => some (some (.respond false .pushed))
  | _ => none

def racedExecution : (stack Bool Nat).Execution where
  state := racedState
  label := racedLabel
  init := ⟨rfl, fun _ => rfl, fun _ => rfl⟩
  next n := by
    obtain _ | _ | _ | _ | _ | _ | _ | _ | _ | _ | _ | _ | _ | _ | _ | n := n
    · exact .callPush _ false 7 rfl
    · exact .callPush _ true 8 rfl
    · exact .pushNew _ false 7 0 rfl rfl
    · exact .pushNew _ true 8 1 rfl rfl
    · exact .pushLoad _ false 0 rfl
    · exact .pushLoad _ true 1 rfl
    · exact .pushLink _ false 0 none ⟨7, none⟩ rfl rfl
    · exact .pushLink _ true 1 none ⟨8, none⟩ rfl rfl
    · exact .pushCasDone _ true 1 none ⟨8, none⟩ rfl rfl rfl
    · exact .pushReturn _ true rfl
    · exact .pushCasRetry _ false 0 none rfl (Option.some_ne_none 1)
    · exact .pushLoad _ false 0 rfl
    · exact .pushLink _ false 0 (some 1) ⟨7, none⟩ rfl rfl
    · exact .pushCasDone _ false 0 (some 1) ⟨7, some 1⟩ rfl rfl rfl
    · exact .pushReturn _ false rfl
    · rfl

theorem racedState_end {n : ℕ} (hn : 15 ≤ n) : racedState n = racedState 15 := by
  induction n, hn using Nat.le_induction with
  | base => rfl
  | succ n hn ih =>
      obtain ⟨k, rfl⟩ := Nat.exists_eq_add_of_le' hn
      rw [← ih]
      rfl

theorem racedExecution_fair : racedExecution.Fair (fun _ => ()) fun s _ => s.Running := by
  have hidle : ∀ t, (racedState 15).pc t = .idle := by decide
  exact System.Execution.fair_of_end (fun _ hn => racedState_end hn)
    fun _ ⟨t, ht⟩ => ht (hidle t)

/-- The swap of `false` has failed, and only `false` is still in a call. -/
theorem stack_lock_free_sample :
    (racedState 10).pc false = .pushCas 0 none ∧ (racedState 11).pc false = .pushLoad 0 ∧
      ∃ m u ret, 11 ≤ m ∧ racedLabel m = some (some (.respond u ret)) :=
  ⟨rfl, rfl, stack_lock_free racedExecution (n := 11) (t := false) (fun hidle => by cases hidle)
    racedExecution_fair⟩

end CsInternal.Thread.LockFreeStack
