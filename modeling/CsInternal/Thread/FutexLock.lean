import Mathlib.Logic.Function.Basic
import CsInternal.Library.Transition

/-!
# The futex lock of `lock_impl.c`

Every compare-and-swap, plain load, exchange, `FUTEX_WAIT` and `FUTEX_WAKE` is
one atomic step of one thread; any number of threads interleave freely.  The
kernel is represented by what the two futex calls may do: a wait sleeps only
while the word is 2 and may always return early, a wake releases one sleeper
of its choice when there is one.
-/

namespace CsInternal.Thread.FutexLock

open CsInternal.Library

/-- `!__sync_bool_compare_and_swap(mem, oldval, newval)`, with the new word. -/
def atomicCompareAndExchangeBoolAcq (mem newval oldval : Int) : Bool × Int :=
  if mem = oldval then (false, newval) else (true, mem)

/-- The `xchgl` of `atomic_exchange_acq`: the old word and the new one. -/
def atomicExchangeAcq (mem newvalue : Int) : Int × Int := (mem, newvalue)

/-- `__sync_lock_test_and_set` behind `atomic_exchange_rel`. -/
def atomicExchangeRel (mem value : Int) : Int × Int := (mem, value)

/-- Program points of a thread that repeats `lll_lock`, critical section,
`lll_unlock`.  Both waits of the slow path continue at the same exchange. -/
inductive Pc where
  /-- before the compare-and-swap of `lll_lock` -/
  | idle
  /-- `if (*futex == 2)` of `__lll_lock_wait_private` -/
  | testFutex
  /-- about to issue `lll_futex_wait (futex, 2, LLL_PRIVATE)` -/
  | futexWait
  /-- blocked inside `FUTEX_WAIT` -/
  | asleep
  /-- `while (atomic_exchange_acq (futex, 2) != 0)` -/
  | exchange
  /-- after `lll_lock` has returned, before the exchange of `__lll_unlock` -/
  | critical
  /-- `__oldval > 1` was seen, `lll_futex_wake` not yet issued -/
  | futexWake
  deriving DecidableEq, Repr

/-- The fast path of `lll_lock`: where the thread goes, and the new word. -/
def lllLock (futex : Int) : Pc × Int :=
  let cas := atomicCompareAndExchangeBoolAcq futex 1 0
  if cas.1 then (.testFutex, cas.2) else (.critical, cas.2)

/-- The plain load at the head of `__lll_lock_wait_private`. -/
def lllLockWaitTest (futex : Int) : Pc :=
  if futex = 2 then .futexWait else .exchange

/-- One evaluation of the loop condition of `__lll_lock_wait_private`. -/
def lllLockWaitExchange (futex : Int) : Pc × Int :=
  let swap := atomicExchangeAcq futex 2
  if swap.1 ≠ 0 then (.futexWait, swap.2) else (.critical, swap.2)

/-- The exchange of `__lll_unlock` and the test of `__oldval`. -/
def lllUnlock (futex : Int) : Pc × Int :=
  let swap := atomicExchangeRel futex 0
  if swap.1 > 1 then (.futexWake, swap.2) else (.idle, swap.2)

structure State (Tid : Type) where
  futex : Int
  pc : Tid → Pc

namespace State

variable {Tid : Type} [DecidableEq Tid]

def setPc (s : State Tid) (t : Tid) (pc : Pc) : State Tid :=
  { s with pc := Function.update s.pc t pc }

def set (s : State Tid) (t : Tid) (result : Pc × Int) : State Tid :=
  ⟨result.2, Function.update s.pc t result.1⟩

/-- From the successful compare-and-swap, or the exchange that returned 0,
until the exchange with 0. -/
def Holds (s : State Tid) (t : Tid) : Prop := s.pc t = .critical

def Asleep (s : State Tid) (t : Tid) : Prop := s.pc t = .asleep

/-- The word was exchanged from 2 to 0 and the wake is still to come. -/
def WakePending (s : State Tid) (t : Tid) : Prop := s.pc t = .futexWake

/-- Awake in the slow path with the exchange as its very next step. -/
def WillExchange (s : State Tid) (t : Tid) : Prop := s.pc t = .exchange

@[simp] theorem set_futex (s : State Tid) (t : Tid) (result : Pc × Int) :
    (s.set t result).futex = result.2 := rfl

theorem setPc_pc (s : State Tid) (t u : Tid) (pc : Pc) :
    (s.setPc t pc).pc u = if u = t then pc else s.pc u := by
  simp [setPc, Function.update_apply]

theorem set_pc (s : State Tid) (t u : Tid) (result : Pc × Int) :
    (s.set t result).pc u = if u = t then result.1 else s.pc u := by
  simp [set, Function.update_apply]

end State

/-- The atomic steps, each with the thread that performs it. -/
inductive Action (Tid : Type) where
  | cas (t : Tid)
  | load (t : Tid)
  | sleep (t : Tid)
  | waitReturn (t : Tid)
  | exchange (t : Tid)
  | unlock (t : Tid)
  | wake (t : Tid) (woken : Option Tid)
  deriving DecidableEq, Repr

def Action.actor {Tid : Type} : Action Tid → Tid
  | .cas t | .load t | .sleep t | .waitReturn t | .exchange t | .unlock t | .wake t _ => t

inductive Step {Tid : Type} [DecidableEq Tid] :
    State Tid → Action Tid → State Tid → Prop where
  | cas (s : State Tid) (t : Tid) (hpc : s.pc t = .idle) :
      Step s (.cas t) (s.set t (lllLock s.futex))
  | load (s : State Tid) (t : Tid) (hpc : s.pc t = .testFutex) :
      Step s (.load t) (s.setPc t (lllLockWaitTest s.futex))
  | sleep (s : State Tid) (t : Tid) (hpc : s.pc t = .futexWait)
      (hword : s.futex = 2) :
      Step s (.sleep t) (s.setPc t .asleep)
  -- the word was not 2, or the call was interrupted before it slept
  | waitRefused (s : State Tid) (t : Tid) (hpc : s.pc t = .futexWait) :
      Step s (.waitReturn t) (s.setPc t .exchange)
  | waitInterrupted (s : State Tid) (t : Tid) (hpc : s.pc t = .asleep) :
      Step s (.waitReturn t) (s.setPc t .exchange)
  | exchange (s : State Tid) (t : Tid) (hpc : s.pc t = .exchange) :
      Step s (.exchange t) (s.set t (lllLockWaitExchange s.futex))
  | unlock (s : State Tid) (t : Tid) (hpc : s.pc t = .critical) :
      Step s (.unlock t) (s.set t (lllUnlock s.futex))
  | wakeOne (s : State Tid) (t u : Tid) (hpc : s.pc t = .futexWake)
      (hsleeper : s.pc u = .asleep) :
      Step s (.wake t (some u)) ((s.setPc u .exchange).setPc t .idle)
  | wakeNobody (s : State Tid) (t : Tid) (hpc : s.pc t = .futexWake)
      (hnone : ∀ u, s.pc u ≠ .asleep) :
      Step s (.wake t none) (s.setPc t .idle)

/-- Every thread starts outside the lock, with `static int futex = 0`. -/
def Initial {Tid : Type} (s : State Tid) : Prop :=
  s.futex = 0 ∧ ∀ t, s.pc t = .idle

def lock (Tid : Type) [DecidableEq Tid] : System (State Tid) (Action Tid) where
  init := Initial
  step := Step

end CsInternal.Thread.FutexLock
