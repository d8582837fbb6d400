import CsInternal.Library.SharedCounter
import CsInternal.Thread.FutexLockSafety

/-!
# The counting test of `lock_impl.c`

Every thread of `main` runs `fn`: it waits for `go` and then increments `sum`
`COUNT` times between `lll_lock` and `lll_unlock`.  The two calls consist of
the atomic steps of the futex lock, and `sum++` is a load followed by a store.
Mutual exclusion keeps the loaded value current until it is stored, so the
program simulates a counter that is incremented atomically.
-/

namespace CsInternal.Thread.FutexCounter

open CsInternal.Library

/-- Program points of `fn`; `i` is the loop counter. -/
inductive FnPoint where
  /-- `while (!go);` -/
  | spin
  /-- `i<COUNT` -/
  | test (i : Nat)
  /-- inside `lll_lock(&futex)` -/
  | lllLock (i : Nat)
  /-- about to load `sum` -/
  | loadSum (i : Nat)
  /-- about to store `value`, the loaded word plus 1 -/
  | storeSum (i : Nat) (value : BitVec 32)
  /-- inside `lll_unlock(futex, LLL_PRIVATE)` -/
  | lllUnlock (i : Nat)
  /-- `return NULL` -/
  | finished
  deriving DecidableEq, Repr

/-- The steps of the lock that belong to `lll_lock`; the others are those of
`lll_unlock`. -/
def ofLllLock {Tid : Type} : FutexLock.Action Tid → Bool
  | .cas _ | .load _ | .sleep _ | .waitReturn _ | .exchange _ => true
  | .unlock _ | .wake _ _ => false

structure State (Tid : Type) where
  lock : FutexLock.State Tid
  sum : BitVec 32
  go : Bool
  point : Tid → FnPoint

namespace State

variable {Tid : Type} [DecidableEq Tid]

def setPoint (s : State Tid) (t : Tid) (point : FnPoint) : State Tid :=
  { s with point := Function.update s.point t point }

@[simp] theorem setPoint_lock (s : State Tid) (t : Tid) (point : FnPoint) :
    (s.setPoint t point).lock = s.lock := rfl

theorem setPoint_point (s : State Tid) (t u : Tid) (point : FnPoint) :
    (s.setPoint t point).point u = if u = t then point else s.point u := by
  simp [setPoint, Function.update_apply]

end State

/-- The atomic steps of the program. -/
inductive Action (Tid : Type) where
  /-- `go = 1` in `main` -/
  | setGo
  | readGo (t : Tid)
  | test (t : Tid)
  /-- a step of the lock, by the thread that is inside one of its calls -/
  | lock (a : FutexLock.Action Tid)
  | lockReturn (t : Tid)
  | load (t : Tid)
  | store (t : Tid)
  | unlockReturn (t : Tid)
  deriving DecidableEq, Repr

inductive Step {Tid : Type} [DecidableEq Tid] (count : Nat) :
    State Tid → Action Tid → State Tid → Prop where
  | setGo (s : State Tid) : Step count s .setGo { s with go := true }
  | readGo (s : State Tid) (t : Tid) (hpoint : s.point t = .spin) :
      Step count s (.readGo t) (if s.go then s.setPoint t (.test 0) else s)
  | test (s : State Tid) (t : Tid) (i : Nat) (hpoint : s.point t = .test i) :
      Step count s (.test t) (s.setPoint t (if i < count then .lllLock i else .finished))
  | lllLock (s : State Tid) (a : FutexLock.Action Tid) (lock' : FutexLock.State Tid) (i : Nat)
      (hpoint : s.point a.actor = .lllLock i) (hcall : ofLllLock a = true)
      (hstep : FutexLock.Step s.lock a lock') :
      Step count s (.lock a) { s with lock := lock' }
  | lockReturn (s : State Tid) (t : Tid) (i : Nat) (hpoint : s.point t = .lllLock i)
      (hpc : s.lock.pc t = .critical) :
      Step count s (.lockReturn t) (s.setPoint t (.loadSum i))
  | load (s : State Tid) (t : Tid) (i : Nat) (hpoint : s.point t = .loadSum i) :
      Step count s (.load t) (s.setPoint t (.storeSum i (s.sum + 1)))
  | store (s : State Tid) (t : Tid) (i : Nat) (value : BitVec 32)
      (hpoint : s.point t = .storeSum i value) :
      Step count s (.store t) ({ s with sum := value }.setPoint t (.lllUnlock i))
  | lllUnlock (s : State Tid) (a : FutexLock.Action Tid) (lock' : FutexLock.State Tid)
      (i : Nat) (hpoint : s.point a.actor = .lllUnlock i) (hcall : ofLllLock a = false)
      (hstep : FutexLock.Step s.lock a lock') :
      Step count s (.lock a) { s with lock := lock' }
  | unlockReturn (s : State Tid) (t : Tid) (i : Nat) (hpoint : s.point t = .lllUnlock i)
      (hpc : s.lock.pc t = .idle) :
      Step count s (.unlockReturn t) (s.setPoint t (.test (i + 1)))

/-- The static initial values, before any thread has read `go`. -/
def Initial {Tid : Type} (s : State Tid) : Prop :=
  FutexLock.Initial s.lock ∧ s.sum = 0 ∧ s.go = false ∧ ∀ t, s.point t = .spin

def program (Tid : Type) [DecidableEq Tid] (count : Nat) : System (State Tid) (Action Tid) where
  init := Initial
  step := Step count

/-- The program points of the lock that fit a point of `fn`. -/
def FnPoint.Agrees : FnPoint → FutexLock.Pc → Prop
  | .spin, pc | .test _, pc | .finished, pc => pc = .idle
  | .lllLock _, pc => pc ≠ .futexWake
  | .loadSum _, pc | .storeSum _ _, pc => pc = .critical
  | .lllUnlock _, pc => pc = .critical ∨ pc = .futexWake ∨ pc = .idle

/-- The increments a thread has stored; a thread past its store has completed
the current one. -/
def FnPoint.completed (count : Nat) : FnPoint → Nat
  | .spin => 0
  | .test i | .lllLock i | .loadSum i | .storeSum i _ => i
  | .lllUnlock i => i + 1
  | .finished => count

/-- The loop counter never passes the bound of its test. -/
def FnPoint.InLoop (count : Nat) : FnPoint → Prop
  | .spin | .finished => True
  | .test i => i ≤ count
  | .lllLock i | .loadSum i | .storeSum i _ | .lllUnlock i => i < count

variable {Tid : Type} [DecidableEq Tid] {count : Nat} {s s' : State Tid} {a : Action Tid}

/-- A sleeping thread is inside `lll_lock`, where it may be woken. -/
theorem FnPoint.Agrees.woken {point : FnPoint} (hagrees : point.Agrees .asleep) :
    point.Agrees .exchange := by
  cases point with
  | lllLock i => simp [Agrees]
  | _ => simp [Agrees] at hagrees

/-- A step of `lll_lock` leaves its thread in the call, or with the lock. -/
theorem lllLock_target {l l' : FutexLock.State Tid} {b : FutexLock.Action Tid}
    (hcall : ofLllLock b = true) (hstep : FutexLock.Step l b l') :
    l'.pc b.actor ≠ .futexWake := by
  cases hstep with
  | cas t hpc =>
      by_cases hfree : l.futex = 0 <;>
        simp [FutexLock.State.set_pc, FutexLock.Action.actor, FutexLock.lllLock,
          FutexLock.atomicCompareAndExchangeBoolAcq, hfree]
  | load t hpc =>
      by_cases hmark : l.futex = 2 <;>
        simp [FutexLock.State.setPc_pc, FutexLock.Action.actor, FutexLock.lllLockWaitTest, hmark]
  | exchange t hpc =>
      by_cases hfree : l.futex = 0 <;>
        simp [FutexLock.State.set_pc, FutexLock.Action.actor, FutexLock.lllLockWaitExchange,
          FutexLock.atomicExchangeAcq, hfree]
  | unlock t hpc | wakeOne t u hpc hsleeper | wakeNobody t hpc hnone =>
      simp [ofLllLock] at hcall
  | _ => simp [FutexLock.State.setPc_pc, FutexLock.Action.actor]

/-- A step of `lll_unlock` leaves its thread before the wake, or done. -/
theorem lllUnlock_target {l l' : FutexLock.State Tid} {b : FutexLock.Action Tid}
    (hcall : ofLllLock b = false) (hstep : FutexLock.Step l b l') :
    l'.pc b.actor = .futexWake ∨ l'.pc b.actor = .idle := by
  cases hstep with
  | unlock t hpc =>
      by_cases hwaiters : l.futex > 1 <;>
        simp [FutexLock.State.set_pc, FutexLock.Action.actor, FutexLock.lllUnlock,
          FutexLock.atomicExchangeRel, hwaiters]
  | wakeOne t u hpc hsleeper | wakeNobody t hpc hnone =>
      exact Or.inr (by simp [FutexLock.State.setPc_pc, FutexLock.Action.actor])
  | _ => simp [ofLllLock] at hcall

structure Inv (count : Nat) (s : State Tid) : Prop where
  lock : (FutexLock.lock Tid).Reachable s.lock
  agrees : ∀ t, (s.point t).Agrees (s.lock.pc t)
  inLoop : ∀ t, (s.point t).InLoop count
  /-- a loaded value is still current when it is stored -/
  current : ∀ t i value, s.point t = .storeSum i value → value = s.sum + 1

theorem Inv.init (hinit : Initial s) : Inv count s := by
  obtain ⟨hlock, _, _, hspin⟩ := hinit
  refine ⟨.of_init hlock, fun t => ?_, fun t => ?_, fun t i value hpoint => ?_⟩
  · rw [hspin t]
    exact hlock.2 t
  · rw [hspin t]
    trivial
  · rw [hspin t] at hpoint
    cases hpoint

/-- A step that moves one thread to a fitting point and leaves the lock alone. -/
theorem Inv.setPoint (hinv : Inv count s) {t : Tid} {point : FnPoint}
    (hagrees : point.Agrees (s.lock.pc t)) (hloop : point.InLoop count)
    (hcurrent : ∀ i value, point = .storeSum i value → value = s.sum + 1) :
    Inv count (s.setPoint t point) := by
  refine ⟨hinv.lock, fun u => ?_, fun u => ?_, fun u i value hpoint => ?_⟩
  · by_cases hu : u = t
    · subst hu
      simpa [State.setPoint_point] using hagrees
    · simpa [State.setPoint_point, hu] using hinv.agrees u
  · by_cases hu : u = t
    · simpa [State.setPoint_point, hu] using hloop
    · simpa [State.setPoint_point, hu] using hinv.inLoop u
  · by_cases hu : u = t
    · exact hcurrent i value (by simpa [State.setPoint_point, hu] using hpoint)
    · exact hinv.current u i value (by simpa [State.setPoint_point, hu] using hpoint)

/-- A step of the lock by a thread whose point fits afterwards. -/
theorem Inv.lockStep (hinv : Inv count s) {b : FutexLock.Action Tid}
    {lock' : FutexLock.State Tid} (hstep : FutexLock.Step s.lock b lock')
    (hactor : (s.point b.actor).Agrees (lock'.pc b.actor)) :
    Inv count { s with lock := lock' } := by
  refine ⟨hinv.lock.step hstep, fun u => ?_, hinv.inLoop, hinv.current⟩
  by_cases hu : u = b.actor
  · rw [hu]
    exact hactor
  · have hagrees := hinv.agrees u
    rcases hstep.pc_of_ne_actor hu with hsame | ⟨hasleep, hexchange⟩
    · simpa only [hsame] using hagrees
    · rw [hasleep] at hagrees
      simpa only [hexchange] using hagrees.woken

theorem Inv.holds_of_store (hinv : Inv count s) {t : Tid} {i : Nat} {value : BitVec 32}
    (hpoint : s.point t = .storeSum i value) : s.lock.Holds t := by
  have hagrees := hinv.agrees t
  rwa [hpoint] at hagrees

/-- The store of the lock's holder spoils no other thread's loaded value. -/
theorem Inv.store (hinv : Inv count s) {t : Tid} {i : Nat} {value : BitVec 32}
    (hpoint : s.point t = .storeSum i value) :
    Inv count ({ s with sum := value }.setPoint t (.lllUnlock i)) := by
  have hholds := hinv.holds_of_store hpoint
  have hloop := hinv.inLoop t
  have hsum : Inv count ({ s with sum := s.sum }.setPoint t (.lllUnlock i)) := by
    refine hinv.setPoint (Or.inl hholds) ?_ (by simp)
    simpa [hpoint, FnPoint.InLoop] using hloop
  refine ⟨hsum.lock, hsum.agrees, hsum.inLoop, fun u j loaded hu => ?_⟩
  -- a second thread about to store would hold the lock as well
  by_cases hut : u = t
  · simp [State.setPoint_point, hut] at hu
  · have hstore : s.point u = .storeSum j loaded := by
      simpa [State.setPoint_point, hut] using hu
    have hholds' := hinv.holds_of_store hstore
    exact absurd ((FutexLock.exclusive_of_reachable hinv.lock).unique u t hholds' hholds) hut

theorem Inv.step (hinv : Inv count s) (hstep : Step count s a s') : Inv count s' := by
  cases hstep with
  | setGo => exact ⟨hinv.lock, hinv.agrees, hinv.inLoop, hinv.current⟩
  | readGo t hpoint =>
      split
      · have hagrees := hinv.agrees t
        rw [hpoint] at hagrees
        exact hinv.setPoint hagrees (Nat.zero_le count) (by simp)
      · exact hinv
  | test t i hpoint =>
      have hagrees : s.lock.pc t = .idle := by
        simpa [hpoint, FnPoint.Agrees] using hinv.agrees t
      by_cases hi : i < count
      · refine hinv.setPoint ?_ ?_ (by simp [hi])
        · simp [hi, FnPoint.Agrees, hagrees]
        · simp [hi, FnPoint.InLoop]
      · refine hinv.setPoint ?_ ?_ (by simp [hi])
        · simpa [hi, FnPoint.Agrees] using hagrees
        · simp [hi, FnPoint.InLoop]
  | lllLock b lock' i hpoint hcall hlock =>
      refine hinv.lockStep hlock ?_
      rw [hpoint]
      exact lllLock_target hcall hlock
  | lockReturn t i hpoint hpc =>
      have hloop := hinv.inLoop t
      rw [hpoint] at hloop
      exact hinv.setPoint hpc hloop (by simp)
  | load t i hpoint =>
      have hagrees := hinv.agrees t
      have hloop := hinv.inLoop t
      rw [hpoint] at hagrees hloop
      refine hinv.setPoint hagrees hloop ?_
      rintro j value heq
      cases heq
      rfl
  | store t i value hpoint => exact hinv.store hpoint
  | lllUnlock b lock' i hpoint hcall hlock =>
      refine hinv.lockStep hlock ?_
      rw [hpoint]
      exact Or.inr (lllUnlock_target hcall hlock)
  | unlockReturn t i hpoint hpc =>
      have hloop := hinv.inLoop t
      rw [hpoint] at hloop
      exact hinv.setPoint hpc hloop (by simp)

/-! ## Simulation of the atomic counter -/

/-- Only the store to `sum` shows. -/
def Action.increments {Tid : Type} : Action Tid → Option Tid
  | .store t => some t
  | _ => none

/-- The word is `sum`, and every thread has counted its stores. -/
structure Counts (count : Nat) (s : State Tid) (c : SharedCounter Tid 32) : Prop where
  inv : Inv count s
  value : c.value = s.sum
  counted : ∀ t, c.count t = (s.point t).completed count

/-- A step that leaves `sum` alone and completes nothing. -/
theorem Counts.setPoint {c : SharedCounter Tid 32} (hrel : Counts count s c) {t : Tid}
    {point : FnPoint} (hinv : Inv count (s.setPoint t point))
    (hsame : point.completed count = (s.point t).completed count) :
    Counts count (s.setPoint t point) c := by
  refine ⟨hinv, hrel.value, fun u => ?_⟩
  by_cases hu : u = t
  · rw [hrel.counted u, hu]
    simp [State.setPoint_point, hsame]
  · rw [hrel.counted u]
    simp [State.setPoint_point, hu]

theorem Counts.answer {c : SharedCounter Tid 32} (hrel : Counts count s c)
    (hstep : Step count s a s') :
    (SharedCounter.system Tid 32).Answer (Counts count s') c a.increments := by
  have hinv' := hrel.inv.step hstep
  cases hstep with
  | setGo => exact .silent ⟨hinv', hrel.value, hrel.counted⟩
  | readGo t hpoint =>
      by_cases hgo : s.go
      · simp only [hgo, if_true] at hinv' ⊢
        exact .silent (hrel.setPoint hinv' (by simp [hpoint, FnPoint.completed]))
      · simp only [hgo] at hinv' ⊢
        exact .silent hrel
  | test t i hpoint =>
      refine .silent (hrel.setPoint hinv' ?_)
      have hloop := hrel.inv.inLoop t
      rw [hpoint] at hloop ⊢
      split
      · rfl
      · -- the loop is left with its counter at the bound
        exact Nat.le_antisymm (Nat.le_of_not_lt ‹_›) hloop
  | lllLock b lock' i hpoint hcall hlock => exact .silent ⟨hinv', hrel.value, hrel.counted⟩
  | lllUnlock b lock' i hpoint hcall hlock => exact .silent ⟨hinv', hrel.value, hrel.counted⟩
  | store t i value hpoint =>
      refine .shown (.increment c t) ⟨hinv', ?_, fun u => ?_⟩
      · rw [SharedCounter.increment, hrel.value]
        exact (hrel.inv.current t i value hpoint).symm
      · by_cases hu : u = t
        · simp [SharedCounter.increment, State.setPoint_point, hu, hrel.counted, hpoint,
            FnPoint.completed]
        · simp [SharedCounter.increment, State.setPoint_point, hu, hrel.counted]
  | lockReturn t i hpoint hpc => exact .silent (hrel.setPoint hinv' (by rw [hpoint]; rfl))
  | load t i hpoint => exact .silent (hrel.setPoint hinv' (by rw [hpoint]; rfl))
  | unlockReturn t i hpoint hpc => exact .silent (hrel.setPoint hinv' (by rw [hpoint]; rfl))

/-- `fn` in any number of threads is an atomic counter. -/
theorem program_simulates_counter :
    (program Tid count).Simulation (SharedCounter.system Tid 32) Action.increments
      (Counts count) := by
  refine System.Simulation.of_answers ?_ fun _ _ _ _ hrel hstep => hrel.answer hstep
  intro start hinit
  refine ⟨⟨0, fun _ => 0⟩, ⟨rfl, fun _ => rfl⟩, .init hinit, hinit.2.1.symm, fun t => ?_⟩
  rw [hinit.2.2.2 t]
  rfl

/-- In every reachable state `sum` is the number of completed increments. -/
theorem sum_eq_completed [Fintype Tid] (hs : (program Tid count).Reachable s) :
    s.sum = BitVec.ofNat 32 (∑ t, (s.point t).completed count) := by
  obtain ⟨c, hrel, hexact⟩ := SharedCounter.exact_of_simulation program_simulates_counter hs
  have htotal : c.total = ∑ t, (s.point t).completed count :=
    Finset.sum_congr rfl fun t _ => hrel.counted t
  rw [← hrel.value, hexact, htotal]

theorem inv_of_reachable (hs : (program Tid count).Reachable s) : Inv count s :=
  hs.invariant (fun _ => Inv.init) (fun _ _ _ => Inv.step)

/--
No increment is lost: whenever all threads have returned from `fn`, `sum` is
their number times `COUNT`, modulo the width of an `int`, the futex word is 0
and no thread sleeps on it.
-/
theorem fn_loses_no_increment [Fintype Tid] (hs : (program Tid count).Reachable s)
    (hfinished : ∀ t, s.point t = .finished) :
    s.sum = BitVec.ofNat 32 (Fintype.card Tid * count) ∧ s.lock.futex = 0 ∧
      ∀ t, ¬ s.lock.Asleep t := by
  have hinv := inv_of_reachable hs
  have hidle : ∀ t, s.lock.pc t = .idle := by
    intro t
    have hagrees := hinv.agrees t
    rwa [hfinished t] at hagrees
  refine ⟨?_, ?_, fun t hasleep => ?_⟩
  · rw [sum_eq_completed hs]
    simp [hfinished, FnPoint.completed]
  · -- a word other than 0 would have a holder
    by_contra hword
    obtain ⟨t, ht⟩ := (FutexLock.exclusive_of_reachable hinv.lock).held.mp hword
    rw [FutexLock.State.Holds, hidle t] at ht
    cases ht
  · rw [FutexLock.State.Asleep, hidle t] at hasleep
    cases hasleep

def contendedStart : State (Fin 2) := ⟨⟨0, fun _ => .idle⟩, 0, false, fun _ => .spin⟩

omit [DecidableEq Tid] in
/-- Two threads contend for one increment each: the second finds the lock taken,
sleeps on it, and is woken when the first has stored its increment. -/
def contendedTrace (t u : Tid) : List (Action Tid) :=
  [.setGo, .readGo t, .readGo u, .test t, .test u, .lock (.cas t), .lock (.cas u),
    .lock (.load u), .lock (.exchange u), .lock (.sleep u), .lockReturn t, .load t, .store t,
    .lock (.unlock t), .lock (.wake t (some u)), .unlockReturn t, .test t, .lock (.exchange u),
    .lockReturn u, .load u, .store u, .lock (.unlock u), .lock (.wake u none), .unlockReturn u,
    .test u]

theorem contended_run : ∃ s : State (Fin 2),
    (program (Fin 2) 1).Run contendedStart (contendedTrace 0 1) s ∧ s.go = true ∧
      ∀ t, s.point t = .finished := by
  have hstart : (program (Fin 2) 1).Run contendedStart [] contendedStart := .refl _
  have hgo := hstart.tail (.setGo _)
  have henter := (hgo.tail (.readGo _ 0 rfl)).tail (.readGo _ 1 rfl)
  have htest := (henter.tail (.test _ 0 0 rfl)).tail (.test _ 1 0 rfl)
  have hcas := htest.tail (.lllLock _ _ _ 0 rfl rfl (.cas _ 0 rfl))
  have hfail := hcas.tail (.lllLock _ _ _ 0 rfl rfl (.cas _ 1 rfl))
  have hload := hfail.tail (.lllLock _ _ _ 0 rfl rfl (.load _ 1 rfl))
  have hmark := hload.tail (.lllLock _ _ _ 0 rfl rfl (.exchange _ 1 rfl))
  have hsleep := hmark.tail (.lllLock _ _ _ 0 rfl rfl (.sleep _ 1 rfl rfl))
  have hstore := ((hsleep.tail (.lockReturn _ 0 0 rfl rfl)).tail (.load _ 0 0 rfl)).tail
    (.store _ 0 0 _ rfl)
  have hunlock := hstore.tail (.lllUnlock _ _ _ 0 rfl rfl (.unlock _ 0 rfl))
  have hwake := hunlock.tail (.lllUnlock _ _ _ 0 rfl rfl (.wakeOne _ 0 1 rfl rfl))
  have hdone := (hwake.tail (.unlockReturn _ 0 0 rfl rfl)).tail (.test _ 0 1 rfl)
  have hacquire := hdone.tail (.lllLock _ _ _ 0 rfl rfl (.exchange _ 1 rfl))
  have hstore' := ((hacquire.tail (.lockReturn _ 1 0 rfl rfl)).tail (.load _ 1 0 rfl)).tail
    (.store _ 1 0 _ rfl)
  have hunlock' := hstore'.tail (.lllUnlock _ _ _ 0 rfl rfl (.unlock _ 1 rfl))
  have hwake' := hunlock'.tail (.lllUnlock _ _ _ 0 rfl rfl (.wakeNobody _ 1 rfl (by decide)))
  have hdone' := (hwake'.tail (.unlockReturn _ 1 0 rfl rfl)).tail (.test _ 1 1 rfl)
  exact ⟨_, hdone', rfl, by decide⟩

theorem contendedStart_init : (program (Fin 2) 1).init contendedStart :=
  ⟨⟨rfl, fun _ => rfl⟩, rfl, rfl, fun _ => rfl⟩

theorem fn_loses_no_increment_contended :
    ∃ s : State (Fin 2), (program (Fin 2) 1).Reachable s ∧ s.sum = BitVec.ofNat 32 (2 * 1) ∧
      s.lock.futex = 0 ∧ ∀ t, ¬ s.lock.Asleep t := by
  obtain ⟨s, hrun, -, hfinished⟩ := contended_run
  have hs : (program (Fin 2) 1).Reachable s := ⟨_, _, contendedStart_init, hrun⟩
  exact ⟨s, hs, fn_loses_no_increment hs hfinished⟩

end CsInternal.Thread.FutexCounter
