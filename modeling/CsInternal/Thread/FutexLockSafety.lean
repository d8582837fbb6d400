import CsInternal.Thread.FutexLock

/-!
# Mutual exclusion and wake-ups of the futex lock

A step can do one of three things to the ownership of the lock: leave it as it
is, acquire the free lock for one thread, or release it.  Mutual exclusion
follows from this inversion alone.  The wake-up invariant follows one sleeper:
its `2` mark is on the word, or the thread that erased it owes a wake, or some
awake thread is about to write the mark again.
-/

namespace CsInternal.Thread.FutexLock

open CsInternal.Library

variable {Tid : Type} [DecidableEq Tid] {s s' : State Tid} {a : Action Tid}

/-- An attempt on a held lock changes no holder, and one on a free lock takes it. -/
theorem attempt_ownership {t : Tid} {result : Pc × Int} (hfrom : s.pc t ≠ .critical)
    (htakes : result.1 = .critical ↔ s.futex = 0) (hword : result.2 ≠ 0) :
    ((∀ u, (s.set t result).Holds u ↔ s.Holds u) ∧ (result.2 ≠ 0 ↔ s.futex ≠ 0)) ∨
    (∃ t', s.futex = 0 ∧ result.2 ≠ 0 ∧
      ∀ u, (s.set t result).Holds u ↔ u = t' ∨ s.Holds u) := by
  by_cases hfree : s.futex = 0
  · refine Or.inr ⟨t, hfree, hword, fun u => ?_⟩
    rw [State.Holds, State.set_pc]
    split
    · exact iff_of_true (htakes.mpr hfree) (Or.inl ‹_›)
    · rename_i hne
      exact ⟨Or.inr, fun h => h.resolve_left hne⟩
  · refine Or.inl ⟨fun u => ?_, iff_of_true hword hfree⟩
    rw [State.Holds, State.set_pc]
    split
    · subst u
      exact iff_of_false (fun h => hfree (htakes.mp h)) hfrom
    · rfl

/-- All that a step can do to the holders and to the word being zero. -/
theorem Step.ownership (hstep : Step s a s') :
    ((∀ u, s'.Holds u ↔ s.Holds u) ∧ (s'.futex ≠ 0 ↔ s.futex ≠ 0)) ∨
    (∃ t, s.futex = 0 ∧ s'.futex ≠ 0 ∧ ∀ u, s'.Holds u ↔ u = t ∨ s.Holds u) ∨
    (∃ t, s.Holds t ∧ s'.futex = 0 ∧ ∀ u, s'.Holds u ↔ u ≠ t ∧ s.Holds u) := by
  -- a step that moves `t` between two points outside the critical section
  have keeps {t : Tid} {pc : Pc} (hfrom : s.pc t ≠ .critical) (hto : pc ≠ .critical) :
      ∀ u, (s.setPc t pc).Holds u ↔ s.Holds u := by
    intro u
    rw [State.Holds, State.setPc_pc]
    split
    · subst u
      exact iff_of_false hto hfrom
    · rfl
  cases hstep with
  | cas t hpc =>
      refine (attempt_ownership (by simp [hpc]) ?_ ?_).imp_right Or.inl
      · by_cases hfree : s.futex = 0 <;>
          simp [lllLock, atomicCompareAndExchangeBoolAcq, hfree]
      · by_cases hfree : s.futex = 0 <;>
          simp [lllLock, atomicCompareAndExchangeBoolAcq, hfree]
  | load t hpc =>
      have hto : lllLockWaitTest s.futex ≠ .critical := by
        unfold lllLockWaitTest
        split <;> simp
      exact Or.inl ⟨keeps (by simp [hpc]) hto, Iff.rfl⟩
  | sleep t hpc hword => exact Or.inl ⟨keeps (by simp [hpc]) (by simp), Iff.rfl⟩
  | waitRefused t hpc => exact Or.inl ⟨keeps (by simp [hpc]) (by simp), Iff.rfl⟩
  | waitInterrupted t hpc => exact Or.inl ⟨keeps (by simp [hpc]) (by simp), Iff.rfl⟩
  | exchange t hpc =>
      refine (attempt_ownership (by simp [hpc]) ?_ ?_).imp_right Or.inl
      · by_cases hfree : s.futex = 0 <;> simp [lllLockWaitExchange, atomicExchangeAcq, hfree]
      · by_cases hfree : s.futex = 0 <;> simp [lllLockWaitExchange, atomicExchangeAcq, hfree]
  | unlock t hpc =>
      refine Or.inr (Or.inr ⟨t, hpc, ?_, ?_⟩)
      · by_cases hwaiters : s.futex > 1 <;>
          simp [lllUnlock, atomicExchangeRel, hwaiters]
      · intro u
        by_cases hu : u = t <;> by_cases hwaiters : s.futex > 1 <;>
          simp [State.Holds, State.set_pc, lllUnlock, atomicExchangeRel, hwaiters, hu]
  | wakeOne t u hpc hsleeper =>
      refine Or.inl ⟨?_, Iff.rfl⟩
      intro v
      by_cases hv : v = t <;> by_cases hvu : v = u <;>
        simp_all [State.Holds, State.setPc_pc]
  | wakeNobody t hpc hnone => exact Or.inl ⟨keeps (by simp [hpc]) (by simp), Iff.rfl⟩

/-- The word says whether the lock is held, and at most one thread holds it. -/
structure Exclusive (s : State Tid) : Prop where
  unique : ∀ t u, s.Holds t → s.Holds u → t = u
  held : s.futex ≠ 0 ↔ ∃ t, s.Holds t

omit [DecidableEq Tid] in
theorem Exclusive.init (hinit : Initial s) : Exclusive s := by
  have hnone : ∀ t, ¬ s.Holds t := by
    intro t ht
    rw [State.Holds, hinit.2 t] at ht
    cases ht
  refine ⟨fun t u ht => absurd ht (hnone t), ?_⟩
  constructor
  · intro hword
    exact absurd hinit.1 hword
  · rintro ⟨t, ht⟩
    exact absurd ht (hnone t)

theorem Exclusive.step (hinv : Exclusive s) (hstep : Step s a s') : Exclusive s' := by
  rcases hstep.ownership with ⟨hsame, hword⟩ | ⟨t, hfree, hword, hholds⟩ |
    ⟨t, hholder, hword, hholds⟩
  · refine ⟨fun t u ht hu => hinv.unique t u ((hsame t).mp ht) ((hsame u).mp hu), ?_⟩
    rw [hword, hinv.held]
    exact exists_congr fun u => (hsame u).symm
  · -- the word was 0, so nobody held the lock before
    have hnone : ∀ u, ¬ s.Holds u := fun u hu => hinv.held.mpr ⟨u, hu⟩ hfree
    have hself : ∀ u, s'.Holds u → u = t := fun u hu =>
      ((hholds u).mp hu).resolve_right (hnone u)
    refine ⟨fun u v hu hv => (hself u hu).trans (hself v hv).symm, ?_⟩
    exact ⟨fun _ => ⟨t, (hholds t).mpr (Or.inl rfl)⟩, fun _ => hword⟩
  · -- the only holder left, so nobody holds the lock afterwards
    have hnone : ∀ u, ¬ s'.Holds u := fun u hu =>
      ((hholds u).mp hu).1 (hinv.unique u t ((hholds u).mp hu).2 hholder)
    refine ⟨fun u v hu => absurd hu (hnone u), ?_⟩
    constructor
    · exact fun hne => absurd hword hne
    · rintro ⟨u, hu⟩
      exact absurd hu (hnone u)

theorem exclusive_of_reachable (hs : (lock Tid).Reachable s) : Exclusive s :=
  hs.invariant (fun _ => Exclusive.init) (fun _ _ _ => Exclusive.step)

/-- Thread 0 owns the lock through the fast path and thread 1 has gone to sleep
on it through the slow path. -/
def contended : State Nat :=
  ((((((⟨0, fun _ => .idle⟩ : State Nat).set 0 (lllLock 0)).set 1 (lllLock 1)).setPc 1
    (lllLockWaitTest 1)).set 1 (lllLockWaitExchange 1)).setPc 1 .asleep)

theorem contended_reachable : (lock Nat).Reachable contended := by
  have hstart : (lock Nat).Reachable ⟨0, fun _ => .idle⟩ :=
    .of_init ⟨rfl, fun _ => rfl⟩
  have hcas := hstart.step (Step.cas _ 0 rfl)
  have hfail := hcas.step (Step.cas _ 1 rfl)
  have hload := hfail.step (Step.load _ 1 rfl)
  have hexchange := hload.step (Step.exchange _ 1 rfl)
  exact hexchange.step (Step.sleep _ 1 rfl rfl)

/-- In every reachable state at most one thread holds the lock, and the futex
word is non-zero exactly when some thread holds it. -/
theorem lock_mutual_exclusion (hs : (lock Tid).Reachable s) :
    (∀ t u, s.Holds t → s.Holds u → t = u) ∧ (s.futex ≠ 0 ↔ ∃ t, s.Holds t) :=
  let hinv := exclusive_of_reachable hs
  ⟨hinv.unique, hinv.held⟩

theorem lock_mutual_exclusion_contended :
    (∀ t u, contended.Holds t → contended.Holds u → t = u) ∧
      (contended.futex ≠ 0 ↔ ∃ t, contended.Holds t) :=
  lock_mutual_exclusion contended_reachable

/-! ## Wake-ups -/

/-- What keeps a sleeper from being forgotten. -/
def Remembered (s : State Tid) : Prop :=
  s.futex = 2 ∨ (∃ t, s.WakePending t) ∨ ∃ t, s.WillExchange t

/-- While a thread sleeps, its `2` mark is on the word or on its way back. -/
def NoLostWakeUp (s : State Tid) : Prop :=
  (∃ t, s.Asleep t) → Remembered s

/-- A step moves its own thread; of the others it can only wake a sleeper. -/
theorem Step.pc_of_ne_actor {u : Tid} (hstep : Step s a s') (hu : u ≠ a.actor) :
    s'.pc u = s.pc u ∨ (s.pc u = .asleep ∧ s'.pc u = .exchange) := by
  cases hstep with
  | wakeOne t v hpc hsleeper =>
      by_cases huv : u = v
      · subst huv
        exact Or.inr ⟨hsleeper, by simp_all [State.setPc_pc, Action.actor]⟩
      · exact Or.inl (by simp_all [State.setPc_pc, Action.actor])
  | _ => exact Or.inl (by simp_all [State.set_pc, State.setPc_pc, Action.actor])

/-- A thread that will exchange stays at its exchange until it performs it, and
performing it writes the mark. -/
theorem Step.willExchange_persists {t : Tid} (hstep : Step s a s')
    (hwill : s.WillExchange t) :
    s'.WillExchange t ∨ (a = .exchange t ∧ s'.futex = 2) := by
  by_cases ht : t = a.actor
  · -- at the exchange, no other step of the thread is enabled
    subst ht
    rw [State.WillExchange] at hwill
    cases hstep with
    | exchange u hpc =>
        refine Or.inr ⟨rfl, ?_⟩
        by_cases hfree : s.futex = 0 <;>
          simp [lllLockWaitExchange, atomicExchangeAcq, hfree]
    | _ => simp_all [Action.actor]
  · rcases hstep.pc_of_ne_actor ht with hsame | ⟨hasleep, _⟩
    · exact Or.inl (hsame.trans hwill)
    · rw [State.WillExchange, hasleep] at hwill
      cases hwill

/-- An owed wake stays owed until that thread issues it. -/
theorem Step.wakePending_persists {t : Tid} (hstep : Step s a s')
    (hpending : s.WakePending t) :
    s'.WakePending t ∨ ∃ woken, a = .wake t woken := by
  by_cases ht : t = a.actor
  · subst ht
    rw [State.WakePending] at hpending
    cases hstep with
    | wakeOne u v hpc hsleeper => exact Or.inr ⟨some v, rfl⟩
    | wakeNobody u hpc hnone => exact Or.inr ⟨none, rfl⟩
    | _ => simp_all [Action.actor]
  · rcases hstep.pc_of_ne_actor ht with hsame | ⟨hasleep, _⟩
    · exact Or.inl (hsame.trans hpending)
    · rw [State.WakePending, hasleep] at hpending
      cases hpending

/-- Only an unlock erases the mark, and the thread that erased it owes a wake. -/
theorem Step.mark_persists (hstep : Step s a s') (hmark : s.futex = 2) :
    s'.futex = 2 ∨ ∃ t, s'.WakePending t := by
  cases hstep with
  | cas t hpc => exact Or.inl (by simp [lllLock, atomicCompareAndExchangeBoolAcq, hmark])
  | exchange t hpc => exact Or.inl (by simp [lllLockWaitExchange, atomicExchangeAcq, hmark])
  | unlock t hpc =>
      exact Or.inr ⟨t, by
        simp [State.WakePending, State.set_pc, lllUnlock, atomicExchangeRel, hmark]⟩
  | _ => exact Or.inl hmark

/-- A thread falls asleep only on a word that is 2. -/
theorem Step.asleep_origin {t : Tid} (hstep : Step s a s') (hasleep : s'.Asleep t) :
    s.Asleep t ∨ s'.futex = 2 := by
  by_cases ht : t = a.actor
  · subst ht
    rw [State.Asleep] at hasleep
    cases hstep with
    | sleep u hpc hword => exact Or.inr hword
    | cas u hpc =>
        by_cases hfree : s.futex = 0 <;>
          simp [State.set_pc, Action.actor, lllLock, atomicCompareAndExchangeBoolAcq,
            hfree] at hasleep
    | load u hpc =>
        by_cases hmark : s.futex = 2 <;>
          simp [State.setPc_pc, Action.actor, lllLockWaitTest, hmark] at hasleep
    | exchange u hpc =>
        by_cases hfree : s.futex = 0 <;>
          simp [State.set_pc, Action.actor, lllLockWaitExchange, atomicExchangeAcq,
            hfree] at hasleep
    | unlock u hpc =>
        by_cases hwaiters : s.futex > 1 <;>
          simp [State.set_pc, Action.actor, lllUnlock, atomicExchangeRel, hwaiters] at hasleep
    | _ => simp [State.setPc_pc, Action.actor] at hasleep
  · rcases hstep.pc_of_ne_actor ht with hsame | ⟨_, hexchange⟩
    · exact Or.inl (hsame.symm.trans hasleep)
    · rw [State.Asleep, hexchange] at hasleep
      cases hasleep

omit [DecidableEq Tid] in
theorem NoLostWakeUp.init (hinit : Initial s) : NoLostWakeUp s := by
  rintro ⟨t, ht⟩
  rw [State.Asleep, hinit.2 t] at ht
  cases ht

theorem NoLostWakeUp.step (hinv : NoLostWakeUp s) (hstep : Step s a s') :
    NoLostWakeUp s' := by
  rintro ⟨w, hw⟩
  rcases hstep.asleep_origin hw with hslept | hmark
  · rcases hinv ⟨w, hslept⟩ with hmark | ⟨t, hpending⟩ | ⟨t, hwill⟩
    · exact (hstep.mark_persists hmark).imp_right Or.inl
    · rcases hstep.wakePending_persists hpending with hstill | ⟨woken, rfl⟩
      · exact Or.inr (Or.inl ⟨t, hstill⟩)
      · -- the wake is issued: its sleeper is now the thread that will exchange
        cases hstep with
        | wakeOne t u hpc hsleeper =>
            have hne : u ≠ t := by
              rintro rfl
              rw [hsleeper] at hpc
              cases hpc
            exact Or.inr (Or.inr ⟨u, by simp [State.WillExchange, State.setPc_pc, hne]⟩)
        | wakeNobody t hpc hnone => exact absurd hslept (hnone w)
    · rcases hstep.willExchange_persists hwill with hstill | ⟨_, hmark⟩
      · exact Or.inr (Or.inr ⟨t, hstill⟩)
      · exact Or.inl hmark
  · exact Or.inl hmark

theorem noLostWakeUp_of_reachable (hs : (lock Tid).Reachable s) : NoLostWakeUp s :=
  hs.invariant (fun _ => NoLostWakeUp.init) (fun _ _ _ => NoLostWakeUp.step)

/-- With the lock free, a sleeper means that some thread is neither idle nor
asleep. -/
theorem sleeper_not_stranded (hs : (lock Tid).Reachable s) {w : Tid} (hw : s.Asleep w)
    (hfree : ∀ t, ¬ s.Holds t) : ∃ t, t ≠ w ∧ s.pc t ≠ .idle ∧ s.pc t ≠ .asleep := by
  have awake {t : Tid} {pc : Pc} (ht : s.pc t = pc) (hidle : pc ≠ .idle)
      (hasleep : pc ≠ .asleep) : t ≠ w ∧ s.pc t ≠ .idle ∧ s.pc t ≠ .asleep := by
    refine ⟨?_, ht ▸ hidle, ht ▸ hasleep⟩
    rintro rfl
    exact hasleep (ht.symm.trans hw)
  rcases noLostWakeUp_of_reachable hs ⟨w, hw⟩ with hmark | ⟨t, hpending⟩ | ⟨t, hwill⟩
  · obtain ⟨t, ht⟩ := (exclusive_of_reachable hs).held.mp (by simp [hmark])
    exact absurd ht (hfree t)
  · exact ⟨t, awake hpending (by simp) (by simp)⟩
  · exact ⟨t, awake hwill (by simp) (by simp)⟩

/--
No wake-up is lost.  While a thread sleeps, the word is 2, or a thread that
exchanged it from 2 to 0 still owes its wake, or an awake thread of the slow
path will still perform its exchange with 2; the exchange is indeed the next
step of such a thread.  Hence the lock is never free with a sleeper while every
other thread is idle or asleep.
-/
theorem lock_no_lost_wakeup (hs : (lock Tid).Reachable s) :
    ((∃ t, s.Asleep t) →
      s.futex = 2 ∨ (∃ t, s.WakePending t) ∨ ∃ t, s.WillExchange t) ∧
    (∀ t a s', s.WillExchange t → Step s a s' →
      s'.WillExchange t ∨ (a = .exchange t ∧ s'.futex = 2)) ∧
    ¬ ∃ w, s.Asleep w ∧ (∀ t, ¬ s.Holds t) ∧
      ∀ t, t ≠ w → s.pc t = .idle ∨ s.pc t = .asleep := by
  refine ⟨noLostWakeUp_of_reachable hs,
    fun _ _ _ hwill hstep => hstep.willExchange_persists hwill, ?_⟩
  rintro ⟨w, hw, hfree, hrest⟩
  obtain ⟨t, hne, hidle, hasleep⟩ := sleeper_not_stranded hs hw hfree
  exact (hrest t hne).elim hidle hasleep

theorem lock_no_lost_wakeup_contended :
    ((∃ t, contended.Asleep t) →
      contended.futex = 2 ∨ (∃ t, contended.WakePending t) ∨
        ∃ t, contended.WillExchange t) ∧
    (∀ t a s', contended.WillExchange t → Step contended a s' →
      s'.WillExchange t ∨ (a = .exchange t ∧ s'.futex = 2)) ∧
    ¬ ∃ w, contended.Asleep w ∧ (∀ t, ¬ contended.Holds t) ∧
      ∀ t, t ≠ w → contended.pc t = .idle ∨ contended.pc t = .asleep :=
  lock_no_lost_wakeup contended_reachable

end CsInternal.Thread.FutexLock
