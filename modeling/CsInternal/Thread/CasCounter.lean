import CsInternal.Library.SharedCounter

/-!
# The compare-and-swap counter of `cmp_and_swap2.cpp`

`increment` retries until its compare-and-swap succeeds.  The assembly routine
`compare_and_swap` is executed instruction by instruction on its registers;
only its `lock cmpxchg` touches the shared word, so a call is one atomic step
of the calling thread.  Loads and calls of any number of threads interleave
freely, and a word that has returned to an earlier value satisfies a stale
comparison: the store is then still exactly one increment.
-/

namespace CsInternal.Thread.CasCounter

open CsInternal.Library

/-- The registers of the routine, the zero flag and the word at `[rdi]`. -/
structure Cpu where
  eax : BitVec 32
  esi : BitVec 32
  edx : BitVec 32
  zf : Bool
  word : BitVec 32
  deriving DecidableEq, Repr

inductive Instruction where
  /-- `mov eax, esi` -/
  | movEaxEsi
  /-- `lock cmpxchg [rdi], edx` -/
  | lockCmpxchg
  /-- `setz al` -/
  | setzAl
  deriving DecidableEq, Repr

namespace Cpu

/-- The low byte of `eax`. -/
def al (cpu : Cpu) : BitVec 8 := cpu.eax.setWidth 8

/-- Writing `al` keeps the upper 24 bits of `eax`. -/
def setAl (cpu : Cpu) (byte : BitVec 8) : Cpu :=
  { cpu with eax := cpu.eax.extractLsb' 8 24 ++ byte }

def exec (cpu : Cpu) : Instruction → Cpu
  | .movEaxEsi => { cpu with eax := cpu.esi }
  | .lockCmpxchg =>
      if cpu.word = cpu.eax then { cpu with zf := true, word := cpu.edx }
      else { cpu with zf := false, eax := cpu.word }
  | .setzAl => cpu.setAl (if cpu.zf then 1 else 0)

@[simp] theorem setAl_al (cpu : Cpu) (byte : BitVec 8) : (cpu.setAl byte).al = byte :=
  BitVec.setWidth_append_eq_right

@[simp] theorem setAl_word (cpu : Cpu) (byte : BitVec 8) :
    (cpu.setAl byte).word = cpu.word := rfl

end Cpu

/-- The body of the routine up to its `ret`. -/
def compareAndSwapCode : List Instruction := [.movEaxEsi, .lockCmpxchg, .setzAl]

/-- A call with the word, the arguments, and what the caller left in `eax` and
the zero flag: the `bool` in `al`, and the new word. -/
def compareAndSwap (word a b eax : BitVec 32) (zf : Bool) : Bool × BitVec 32 :=
  let cpu := compareAndSwapCode.foldl Cpu.exec ⟨eax, a, b, zf, word⟩
  (cpu.al != 0, cpu.word)

/-- The flag reaches `al` as the result, and it is set exactly by the store. -/
theorem compareAndSwap_eq (word a b eax : BitVec 32) (zf : Bool) :
    compareAndSwap word a b eax zf =
      if word = a then (true, b) else (false, word) := by
  by_cases hequal : word = a <;>
    simp [compareAndSwap, compareAndSwapCode, Cpu.exec, hequal]

/-- Program points of `increment`; `i` is the loop counter. -/
inductive Point where
  /-- `i < 1000000` -/
  | test (i : Nat)
  /-- `old_val = counter.load()` -/
  | load (i : Nat)
  /-- `compare_and_swap(&counter, old_val, new_val)` and the test of its result -/
  | swap (i : Nat) (oldVal newVal : BitVec 32)
  | finished
  deriving DecidableEq, Repr

structure State (Tid : Type) where
  counter : BitVec 32
  point : Tid → Point

namespace State

variable {Tid : Type} [DecidableEq Tid]

def setPoint (s : State Tid) (t : Tid) (point : Point) : State Tid :=
  { s with point := Function.update s.point t point }

@[simp] theorem setPoint_counter (s : State Tid) (t : Tid) (point : Point) :
    (s.setPoint t point).counter = s.counter := rfl

theorem setPoint_point (s : State Tid) (t u : Tid) (point : Point) :
    (s.setPoint t point).point u = if u = t then point else s.point u := by
  simp [setPoint, Function.update_apply]

end State

inductive Action (Tid : Type) where
  | test (t : Tid)
  | load (t : Tid)
  | compareAndSwap (t : Tid) (swapped : Bool)
  deriving DecidableEq, Repr

inductive Step {Tid : Type} [DecidableEq Tid] (iterations : Nat) :
    State Tid → Action Tid → State Tid → Prop where
  | test (s : State Tid) (t : Tid) (i : Nat) (hpoint : s.point t = .test i) :
      Step iterations s (.test t)
        (s.setPoint t (if i < iterations then .load i else .finished))
  | load (s : State Tid) (t : Tid) (i : Nat) (hpoint : s.point t = .load i) :
      Step iterations s (.load t) (s.setPoint t (.swap i s.counter (s.counter + 1)))
  | compareAndSwap (s : State Tid) (t : Tid) (i : Nat) (oldVal newVal eax word : BitVec 32)
      (zf swapped : Bool) (hpoint : s.point t = .swap i oldVal newVal)
      (hcall : compareAndSwap s.counter oldVal newVal eax zf = (swapped, word)) :
      Step iterations s (.compareAndSwap t swapped)
        ({ s with counter := word }.setPoint t (if swapped then .test (i + 1) else .load i))

/-- `std::atomic<int> counter{0}` and every thread before its loop. -/
def Initial {Tid : Type} (s : State Tid) : Prop :=
  s.counter = 0 ∧ ∀ t, s.point t = .test 0

def program (Tid : Type) [DecidableEq Tid] (iterations : Nat) :
    System (State Tid) (Action Tid) where
  init := Initial
  step := Step iterations

/-! ## Simulation of the atomic counter -/

/-- The iterations of its loop that a thread has completed. -/
def Point.completed (iterations : Nat) : Point → Nat
  | .test i | .load i | .swap i _ _ => i
  | .finished => iterations

/-- The loop counter never passes the bound of its test, and `new_val` is one
more than `old_val`. -/
def Point.Fits (iterations : Nat) : Point → Prop
  | .test i => i ≤ iterations
  | .load i => i < iterations
  | .swap i oldVal newVal => i < iterations ∧ newVal = oldVal + 1
  | .finished => True

/-- Only a successful compare-and-swap shows. -/
def Action.increments {Tid : Type} : Action Tid → Option Tid
  | .compareAndSwap t true => some t
  | _ => none

variable {Tid : Type} [DecidableEq Tid] {iterations : Nat} {s s' : State Tid}
  {a : Action Tid}

/-- The word is `counter`, and every thread has counted its iterations. -/
structure Counts (iterations : Nat) (s : State Tid) (c : SharedCounter Tid 32) : Prop where
  value : c.value = s.counter
  counted : ∀ t, c.count t = (s.point t).completed iterations
  fits : ∀ t, (s.point t).Fits iterations

/-- A step that leaves `counter` alone and completes nothing. -/
theorem Counts.setPoint {c : SharedCounter Tid 32} (hrel : Counts iterations s c) {t : Tid}
    {point : Point} (hsame : point.completed iterations = (s.point t).completed iterations)
    (hfits : point.Fits iterations) : Counts iterations (s.setPoint t point) c := by
  refine ⟨hrel.value, fun u => ?_, fun u => ?_⟩
  · by_cases hu : u = t
    · rw [hrel.counted u, hu]
      simp [State.setPoint_point, hsame]
    · rw [hrel.counted u]
      simp [State.setPoint_point, hu]
  · by_cases hu : u = t
    · simpa [State.setPoint_point, hu] using hfits
    · simpa [State.setPoint_point, hu] using hrel.fits u

/-- A successful call is one increment, however old the comparison value is. -/
theorem Counts.swapped {c : SharedCounter Tid 32} (hrel : Counts iterations s c) {t : Tid}
    {i : Nat} {oldVal newVal : BitVec 32} (hpoint : s.point t = .swap i oldVal newVal)
    (hequal : s.counter = oldVal) :
    Counts iterations ({ s with counter := newVal }.setPoint t (.test (i + 1)))
      (c.increment t) := by
  have hfits := hrel.fits t
  rw [hpoint] at hfits
  obtain ⟨hi, rfl⟩ := hfits
  refine ⟨?_, fun u => ?_, fun u => ?_⟩
  · simp [SharedCounter.increment, hrel.value, hequal]
  · by_cases hu : u = t
    · simp [SharedCounter.increment, State.setPoint_point, hu, hrel.counted, hpoint,
        Point.completed]
    · simp [SharedCounter.increment, State.setPoint_point, hu, hrel.counted]
  · by_cases hu : u = t
    · have hnext : (Point.test (i + 1)).Fits iterations := hi
      simpa [State.setPoint_point, hu] using hnext
    · simpa [State.setPoint_point, hu] using hrel.fits u

theorem Counts.answer {c : SharedCounter Tid 32} (hrel : Counts iterations s c)
    (hstep : Step iterations s a s') :
    (SharedCounter.system Tid 32).Answer (Counts iterations s') c a.increments := by
  cases hstep with
  | test t i hpoint =>
      have hfits := hrel.fits t
      rw [hpoint] at hfits
      refine .silent (hrel.setPoint ?_ ?_)
      · rw [hpoint]
        split
        · rfl
        · -- the loop is left with its counter at the bound
          exact Nat.le_antisymm (Nat.le_of_not_lt ‹_›) hfits
      · split
        · assumption
        · trivial
  | load t i hpoint =>
      have hfits := hrel.fits t
      rw [hpoint] at hfits
      exact .silent (hrel.setPoint (by rw [hpoint]; rfl) ⟨hfits, rfl⟩)
  | compareAndSwap t i oldVal newVal eax word zf swapped hpoint hcall =>
      rw [compareAndSwap_eq] at hcall
      by_cases hequal : s.counter = oldVal
      · rw [if_pos hequal] at hcall
        cases hcall
        exact .shown (.increment c t) (hrel.swapped hpoint hequal)
      · rw [if_neg hequal] at hcall
        cases hcall
        have hfits := hrel.fits t
        rw [hpoint] at hfits
        exact .silent (hrel.setPoint (by rw [hpoint]; rfl) hfits.1)

/-- `increment` in any number of threads is an atomic counter. -/
theorem program_simulates_counter :
    (program Tid iterations).Simulation (SharedCounter.system Tid 32) Action.increments
      (Counts iterations) := by
  refine System.Simulation.of_answers ?_ fun _ _ _ _ hrel hstep => hrel.answer hstep
  intro start hinit
  refine ⟨⟨0, fun _ => 0⟩, ⟨rfl, fun _ => rfl⟩, hinit.1.symm, fun t => ?_, fun t => ?_⟩
  · rw [hinit.2 t]
    rfl
  · rw [hinit.2 t]
    exact Nat.zero_le iterations

/--
The counter loses no update: in every reachable state it is the number of loop
iterations completed by all threads, modulo the width of an `int`, hence the
number of threads times the bound of the loop when all have finished.
-/
theorem counter_loses_no_update [Fintype Tid] (hs : (program Tid iterations).Reachable s) :
    s.counter = BitVec.ofNat 32 (∑ t, (s.point t).completed iterations) ∧
      ((∀ t, s.point t = .finished) →
        s.counter = BitVec.ofNat 32 (Fintype.card Tid * iterations)) := by
  obtain ⟨c, hrel, hexact⟩ := SharedCounter.exact_of_simulation program_simulates_counter hs
  have htotal : c.total = ∑ t, (s.point t).completed iterations :=
    Finset.sum_congr rfl fun t _ => hrel.counted t
  have hcounter : s.counter = BitVec.ofNat 32 (∑ t, (s.point t).completed iterations) := by
    rw [← hrel.value, hexact, htotal]
  refine ⟨hcounter, fun hfinished => ?_⟩
  rw [hcounter]
  simp [hfinished, Point.completed]

/-- Both threads load 0; thread 1 wins, and thread 0 retries after its failed
compare-and-swap. -/
def retriedTrace : List (Action (Fin 2)) :=
  [.test 0, .test 1, .load 0, .load 1, .compareAndSwap 1 true, .compareAndSwap 0 false, .load 0,
    .compareAndSwap 0 true, .test 0, .test 1]

theorem retried_run : ∃ s : State (Fin 2),
    (program (Fin 2) 1).Run ⟨0, fun _ => .test 0⟩ retriedTrace s ∧ ∀ t, s.point t = .finished := by
  have hstart : (program (Fin 2) 1).Run ⟨0, fun _ => .test 0⟩ [] ⟨0, fun _ => .test 0⟩ := .refl _
  have htest := (hstart.tail (.test _ 0 0 rfl)).tail (.test _ 1 0 rfl)
  have hload := (htest.tail (.load _ 0 0 rfl)).tail (.load _ 1 0 rfl)
  have hwin := hload.tail (.compareAndSwap _ 1 0 0 1 0 1 false true rfl (by decide))
  have hfail := hwin.tail (.compareAndSwap _ 0 0 0 1 0 1 false false rfl (by decide))
  have hretry := (hfail.tail (.load _ 0 0 rfl)).tail
    (.compareAndSwap _ 0 0 1 2 0 2 false true rfl (by decide))
  exact ⟨_, (hretry.tail (.test _ 0 1 rfl)).tail (.test _ 1 1 rfl), by decide⟩

theorem counter_loses_no_update_retried :
    ∃ s : State (Fin 2), (program (Fin 2) 1).Reachable s ∧ s.counter = BitVec.ofNat 32 (2 * 1) := by
  obtain ⟨s, hrun, hfinished⟩ := retried_run
  have hs : (program (Fin 2) 1).Reachable s := ⟨_, _, ⟨rfl, fun _ => rfl⟩, hrun⟩
  exact ⟨s, hs, (counter_loses_no_update hs).2 hfinished⟩

end CsInternal.Thread.CasCounter
