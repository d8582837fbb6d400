import CsInternal.Library.Accounting
import CsInternal.Thread.FutexLock
import Mathlib.Data.Fintype.Basic

/-!
# System calls of the futex lock

What the word is for: a lock that is free is taken and given back without the kernel, and
the kernel is asked to wake somebody only where a waiter has marked the word.  Each wake
is paid for by an exchange of the slow path, and each sleep by a load or an exchange.
-/

namespace CsInternal.Thread.FutexLock

open CsInternal.Library

namespace Action

variable {Tid : Type}

def isWake : Action Tid → Bool
  | .wake _ _ => true
  | _ => false

def isSleep : Action Tid → Bool
  | .sleep _ => true
  | _ => false

def isExchange : Action Tid → Bool
  | .exchange _ => true
  | _ => false

/-- The steps of the slow path after which a thread may call `lll_futex_wait`. -/
def isLook : Action Tid → Bool
  | .load _ | .exchange _ => true
  | _ => false

/-- The steps of the fast paths, which are no system calls. -/
def isFast : Action Tid → Bool
  | .cas _ | .unlock _ => true
  | _ => false

end Action

/-- The lock is free whenever the compare-and-swap of `lll_lock` is tried. -/
def Uncontended {Tid : Type} (s : State Tid) : Action Tid → Prop
  | .cas _ => s.futex = 0
  | _ => True

/-- The values that the word can have. -/
def State.WordOk {Tid : Type} (s : State Tid) : Prop := s.futex = 0 ∨ s.futex = 1 ∨ s.futex = 2

def Pc.owesWake : Pc → ℕ
  | .futexWake => 1
  | _ => 0

def Pc.mayWait : Pc → ℕ
  | .futexWait => 1
  | _ => 0

variable {Tid : Type} [DecidableEq Tid] {s s' : State Tid} {a : Action Tid}

section

variable [Fintype Tid]

/-- The mark of a waiter on the word. -/
def mark (futex : Int) : ℕ := if futex = 2 then 1 else 0

/-- The wakes that have been paid for and not been made: one for the mark, and those that
the threads owe. -/
def State.wakeCharge (s : State Tid) : ℕ := mark s.futex + ∑ t, (s.pc t).owesWake

/-- The waits that threads are about to make. -/
def State.waitCharge (s : State Tid) : ℕ := ∑ t, (s.pc t).mayWait

theorem wakeCharge_setPc (s : State Tid) (t : Tid) (pc : Pc) :
    (s.setPc t pc).wakeCharge + (s.pc t).owesWake = s.wakeCharge + pc.owesWake := by
  have hsum := sum_update_add Pc.owesWake s.pc t pc
  have hset : (s.setPc t pc).wakeCharge =
      mark s.futex + ∑ u, (Function.update s.pc t pc u).owesWake := rfl
  rw [hset, State.wakeCharge]
  omega

theorem wakeCharge_set (s : State Tid) (t : Tid) (result : Pc × Int) :
    (s.set t result).wakeCharge + (s.pc t).owesWake + mark s.futex =
      s.wakeCharge + result.1.owesWake + mark result.2 := by
  have hsum := sum_update_add Pc.owesWake s.pc t result.1
  have hset : (s.set t result).wakeCharge =
      mark result.2 + ∑ u, (Function.update s.pc t result.1 u).owesWake := rfl
  rw [hset, State.wakeCharge]
  omega

theorem waitCharge_setPc (s : State Tid) (t : Tid) (pc : Pc) :
    (s.setPc t pc).waitCharge + (s.pc t).mayWait = s.waitCharge + pc.mayWait :=
  sum_update_add Pc.mayWait s.pc t pc

theorem waitCharge_set (s : State Tid) (t : Tid) (result : Pc × Int) :
    (s.set t result).waitCharge + (s.pc t).mayWait = s.waitCharge + result.1.mayWait :=
  sum_update_add Pc.mayWait s.pc t result.1

end

theorem Pc.mayWait_le (pc : Pc) : pc.mayWait ≤ 1 := by
  cases pc with
  | futexWait => exact Nat.le_refl 1
  | _ => exact Nat.zero_le 1

theorem lllLock_mayWait (futex : Int) : (lllLock futex).1.mayWait = 0 := by
  rw [lllLock]
  split
  · rfl
  · rfl

theorem lllUnlock_mayWait (futex : Int) : (lllUnlock futex).1.mayWait = 0 := by
  rw [lllUnlock]
  split
  · rfl
  · rfl

theorem lllLock_owes (futex : Int) :
    (lllLock futex).1.owesWake = 0 ∧ mark (lllLock futex).2 = mark futex := by
  rw [lllLock, atomicCompareAndExchangeBoolAcq]
  by_cases hfree : futex = 0
  · simp [hfree, Pc.owesWake, mark]
  · simp [hfree, Pc.owesWake]

theorem lllLockWaitTest_owes (futex : Int) : (lllLockWaitTest futex).owesWake = 0 := by
  rw [lllLockWaitTest]
  split
  · rfl
  · rfl

theorem lllLockWaitExchange_owes (futex : Int) :
    (lllLockWaitExchange futex).1.owesWake = 0 ∧ (lllLockWaitExchange futex).2 = 2 := by
  rw [lllLockWaitExchange]
  split
  · exact ⟨rfl, rfl⟩
  · exact ⟨rfl, rfl⟩

omit [DecidableEq Tid] in
/-- The thread that takes a mark away owes a wake. -/
theorem lllUnlock_owes (hword : s.WordOk) :
    (lllUnlock s.futex).1.owesWake = mark s.futex ∧ (lllUnlock s.futex).2 = 0 := by
  obtain hfree | hheld | hmarked := hword
  · rw [hfree]
    exact ⟨rfl, rfl⟩
  · rw [hheld]
    exact ⟨rfl, rfl⟩
  · rw [hmarked]
    exact ⟨rfl, rfl⟩

theorem Step.wordOk (hword : s.WordOk) (hstep : Step s a s') : s'.WordOk := by
  cases hstep with
  | cas t _ =>
      rw [State.WordOk, State.set_futex, lllLock, atomicCompareAndExchangeBoolAcq]
      split
      · exact .inr (.inl rfl)
      · exact hword
  | exchange t _ => exact .inr (.inr (lllLockWaitExchange_owes s.futex).2)
  | unlock t _ => exact .inl (lllUnlock_owes hword).2
  | load | sleep | waitRefused | waitInterrupted | wakeOne | wakeNobody => exact hword

omit [DecidableEq Tid] in
theorem ne_of_asleep {t u : Tid} (hpc : s.pc t = .futexWake) (hsleeper : s.pc u = .asleep) :
    t ≠ u := by
  rintro rfl
  rw [hpc] at hsleeper
  cases hsleeper

section

variable [Fintype Tid]

/-- An exchange pays for the mark that it sets, and the mark for the wake that is owed when
it is taken away. -/
theorem Step.wakes_paid (hword : s.WordOk) (hstep : Step s a s') :
    s'.wakeCharge + a.isWake.toNat ≤ s.wakeCharge + a.isExchange.toNat := by
  cases hstep with
  | cas t hpc =>
      have hcharge := wakeCharge_set s t (lllLock s.futex)
      obtain ⟨howes, hmark⟩ := lllLock_owes s.futex
      rw [hpc, howes, hmark] at hcharge
      exact Nat.le_of_eq (Nat.add_right_cancel hcharge)
  | load t hpc =>
      have hcharge := wakeCharge_setPc s t (lllLockWaitTest s.futex)
      rw [hpc, lllLockWaitTest_owes] at hcharge
      exact Nat.le_of_eq hcharge
  | sleep t hpc _ =>
      have hcharge := wakeCharge_setPc s t .asleep
      rw [hpc] at hcharge
      exact Nat.le_of_eq hcharge
  | waitRefused t hpc | waitInterrupted t hpc =>
      have hcharge := wakeCharge_setPc s t .exchange
      rw [hpc] at hcharge
      exact Nat.le_of_eq hcharge
  | exchange t hpc =>
      have hcharge := wakeCharge_set s t (lllLockWaitExchange s.futex)
      obtain ⟨howes, hmarked⟩ := lllLockWaitExchange_owes s.futex
      rw [hpc, howes, hmarked] at hcharge
      have hpaid : (s.set t (lllLockWaitExchange s.futex)).wakeCharge + 0 + mark s.futex =
          s.wakeCharge + 0 + 1 := hcharge
      have hspent : (Action.exchange t).isExchange.toNat = 1 := rfl
      have hnone : (Action.exchange t).isWake.toNat = 0 := rfl
      omega
  | unlock t hpc =>
      have hcharge := wakeCharge_set s t (lllUnlock s.futex)
      obtain ⟨howes, hfree⟩ := lllUnlock_owes hword
      rw [hpc, howes, hfree] at hcharge
      exact Nat.le_of_eq (Nat.add_right_cancel hcharge)
  | wakeOne t u hpc hsleeper =>
      have hne := ne_of_asleep hpc hsleeper
      have hwoken := wakeCharge_setPc s u .exchange
      have hcharge := wakeCharge_setPc (s.setPc u .exchange) t .idle
      rw [hsleeper] at hwoken
      rw [State.setPc_pc, if_neg hne, hpc] at hcharge
      exact Nat.le_of_eq (hcharge.trans hwoken)
  | wakeNobody t hpc _ =>
      have hcharge := wakeCharge_setPc s t .idle
      rw [hpc] at hcharge
      exact Nat.le_of_eq hcharge

/-- Who comes to `lll_futex_wait` has just looked at the word. -/
theorem Step.sleeps_paid (hstep : Step s a s') :
    s'.waitCharge + a.isSleep.toNat ≤ s.waitCharge + a.isLook.toNat := by
  cases hstep with
  | cas t hpc =>
      have hcharge := waitCharge_set s t (lllLock s.futex)
      rw [hpc, lllLock_mayWait] at hcharge
      exact Nat.le_of_eq hcharge
  | load t hpc =>
      have hcharge := waitCharge_setPc s t (lllLockWaitTest s.futex)
      rw [hpc] at hcharge
      exact (Nat.le_of_eq hcharge).trans (Nat.add_le_add_left (Pc.mayWait_le _) _)
  | sleep t hpc _ =>
      have hcharge := waitCharge_setPc s t .asleep
      rw [hpc] at hcharge
      exact Nat.le_of_eq hcharge
  | waitRefused t hpc =>
      have hcharge := waitCharge_setPc s t .exchange
      rw [hpc] at hcharge
      exact (Nat.le_add_right _ 1).trans (Nat.le_of_eq hcharge)
  | waitInterrupted t hpc =>
      have hcharge := waitCharge_setPc s t .exchange
      rw [hpc] at hcharge
      exact Nat.le_of_eq hcharge
  | exchange t hpc =>
      have hcharge := waitCharge_set s t (lllLockWaitExchange s.futex)
      rw [hpc] at hcharge
      exact (Nat.le_of_eq hcharge).trans (Nat.add_le_add_left (Pc.mayWait_le _) _)
  | unlock t hpc =>
      have hcharge := waitCharge_set s t (lllUnlock s.futex)
      rw [hpc, lllUnlock_mayWait] at hcharge
      exact Nat.le_of_eq hcharge
  | wakeOne t u hpc hsleeper =>
      have hne := ne_of_asleep hpc hsleeper
      have hwoken := waitCharge_setPc s u .exchange
      have hcharge := waitCharge_setPc (s.setPc u .exchange) t .idle
      rw [hsleeper] at hwoken
      rw [State.setPc_pc, if_neg hne, hpc] at hcharge
      exact Nat.le_of_eq (hcharge.trans hwoken)
  | wakeNobody t hpc _ =>
      have hcharge := waitCharge_setPc s t .idle
      rw [hpc] at hcharge
      exact Nat.le_of_eq hcharge

end

/-- Nobody has come to the slow path. -/
structure State.Quiet (s : State Tid) : Prop where
  word : s.futex = 0 ∨ s.futex = 1
  outside : ∀ t, s.pc t = .idle ∨ s.pc t = .critical

theorem State.Quiet.set (hquiet : s.Quiet) (t : Tid) {result : Pc × Int}
    (hword : result.2 = 0 ∨ result.2 = 1) (hpc : result.1 = .idle ∨ result.1 = .critical) :
    (s.set t result).Quiet := by
  refine ⟨hword, fun u => ?_⟩
  rw [State.set_pc]
  split
  · exact hpc
  · exact hquiet.outside u

theorem Step.quiet (hquiet : s.Quiet) (hstep : Step s a s') (hfree : Uncontended s a) :
    s'.Quiet ∧ a.isFast = true := by
  have hout : ∀ {t : Tid} {pc : Pc}, s.pc t = pc → pc ≠ .idle → pc ≠ .critical → False := by
    intro t pc hpc hidle hcritical
    obtain h | h := hquiet.outside t
    · exact hidle (hpc.symm.trans h)
    · exact hcritical (hpc.symm.trans h)
  cases hstep with
  | cas t hpc =>
      have hzero : s.futex = 0 := hfree
      rw [hzero]
      exact ⟨hquiet.set t (.inr rfl) (.inr rfl), rfl⟩
  | unlock t hpc =>
      obtain hzero | hone := hquiet.word
      · rw [hzero]
        exact ⟨hquiet.set t (.inl rfl) (.inl rfl), rfl⟩
      · rw [hone]
        exact ⟨hquiet.set t (.inl rfl) (.inl rfl), rfl⟩
  | load t hpc | sleep t hpc | waitRefused t hpc | waitInterrupted t hpc | exchange t hpc
  | wakeOne t u hpc | wakeNobody t hpc => exact (hout hpc (by decide) (by decide)).elim

theorem uncontended_run_fast {start : State Tid} {trace : List (Action Tid)}
    (hinit : Initial start) (hrun : ((lock Tid).restrict Uncontended).Run start trace s) :
    s.Quiet ∧ ∀ a ∈ trace, a.isFast = true := by
  induction hrun with
  | refl =>
      exact ⟨⟨.inl hinit.1, fun t => .inl (hinit.2 t)⟩, fun a ha => absurd ha List.not_mem_nil⟩
  | tail _ hstep ih =>
      obtain ⟨hquiet, hfast⟩ := ih
      obtain ⟨hquiet', hlast⟩ := hstep.1.quiet hquiet hstep.2
      refine ⟨hquiet', fun a ha => ?_⟩
      obtain ha | ha := List.mem_append.mp ha
      · exact hfast a ha
      · rw [List.mem_singleton.mp ha]
        exact hlast

/-- The kernel is asked to wake somebody no more often than the slow path has exchanged the
word, and threads sleep no more often than it has looked at the word; a lock that is free
whenever it is tried makes no system call. -/
theorem futex_calls [Fintype Tid] {start : State Tid} {trace : List (Action Tid)}
    (hinit : Initial start) (hrun : (lock Tid).Run start trace s) :
    trace.countP Action.isWake ≤ trace.countP Action.isExchange ∧
      trace.countP Action.isSleep ≤ trace.countP Action.isLook ∧
      (((lock Tid).restrict Uncontended).Run start trace s → ∀ a ∈ trace, a.isFast = true) := by
  have hnone : start.wakeCharge = 0 ∧ start.waitCharge = 0 := by
    simp [State.wakeCharge, State.waitCharge, mark, hinit.1, hinit.2, Pc.owesWake, Pc.mayWait]
  have hwake : ∀ (s : State Tid) a s', s.WordOk → Step s a s' →
      s'.WordOk ∧ s'.wakeCharge + a.isWake.toNat ≤ s.wakeCharge + a.isExchange.toNat :=
    fun _ _ _ hword hstep => ⟨hstep.wordOk hword, hstep.wakes_paid hword⟩
  have hsleep : ∀ (s : State Tid) a s', True → Step s a s' →
      True ∧ s'.waitCharge + a.isSleep.toNat ≤ s.waitCharge + a.isLook.toNat :=
    fun _ _ _ _ hstep => ⟨trivial, hstep.sleeps_paid⟩
  obtain ⟨-, hwakes⟩ := hrun.account hwake (.inl hinit.1)
  obtain ⟨-, hsleeps⟩ := hrun.account hsleep trivial
  rw [hnone.1] at hwakes
  rw [hnone.2] at hsleeps
  exact ⟨by omega, by omega, fun hfree => (uncontended_run_fast hinit hfree).2⟩

omit [DecidableEq Tid] in
/-- The second thread sleeps once; each makes a wake, of which the last finds nobody. -/
def wakingTrace (t u : Tid) : List (Action Tid) :=
  [.cas t, .cas u, .load u, .exchange u, .sleep u, .unlock t, .wake t (some u), .exchange u,
    .unlock u, .wake u none]

theorem waking_run : ∃ s, (lock (Fin 2)).Run ⟨0, fun _ => .idle⟩ (wakingTrace 0 1) s :=
  ⟨_, .head (Step.cas _ 0 rfl) <| .head (Step.cas _ 1 rfl) <| .head (Step.load _ 1 rfl) <|
    .head (Step.exchange _ 1 rfl) <| .head (Step.sleep _ 1 rfl rfl) <|
    .head (Step.unlock _ 0 rfl) <| .head (Step.wakeOne _ 0 1 rfl rfl) <|
    .head (Step.exchange _ 1 rfl) <| .head (Step.unlock _ 1 rfl) <|
    .single (Step.wakeNobody _ 1 rfl (by decide))⟩

/-- As many wakes as exchanges, and a run of one thread without a system call. -/
theorem futex_calls_waking :
    (wakingTrace (0 : Fin 2) 1).countP Action.isWake = 2 ∧
      (wakingTrace (0 : Fin 2) 1).countP Action.isWake ≤
        (wakingTrace (0 : Fin 2) 1).countP Action.isExchange ∧
      (wakingTrace (0 : Fin 2) 1).countP Action.isSleep ≤
        (wakingTrace (0 : Fin 2) 1).countP Action.isLook ∧
      ∀ a ∈ ([.cas 0, .unlock 0] : List (Action (Fin 2))), a.isFast = true := by
  obtain ⟨s, hrun⟩ := waking_run
  obtain ⟨hwakes, hsleeps, -⟩ := futex_calls ⟨rfl, fun _ => rfl⟩ hrun
  have hcas : Step (⟨0, fun _ => .idle⟩ : State (Fin 2)) (.cas 0) _ := .cas _ 0 rfl
  have hunlock := Step.unlock ((⟨0, fun _ => .idle⟩ : State (Fin 2)).set 0 (lllLock 0)) 0 rfl
  have hfree : ((lock (Fin 2)).restrict Uncontended).Run ⟨0, fun _ => .idle⟩ _ _ :=
    .head ⟨hcas, rfl⟩ (.single ⟨hunlock, trivial⟩)
  have hplain : (lock (Fin 2)).Run ⟨0, fun _ => .idle⟩ _ _ := .head hcas (.single hunlock)
  exact ⟨rfl, hwakes, hsleeps, (futex_calls ⟨rfl, fun _ => rfl⟩ hplain).2.2 hfree⟩

end CsInternal.Thread.FutexLock
