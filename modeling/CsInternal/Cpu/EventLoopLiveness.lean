import CsInternal.Cpu.EventLoopSafety
import CsInternal.Library.Fairness
import Mathlib.Data.Prod.Lex
import Mathlib.Algebra.Order.Group.Nat

/-!
# No coroutine starves under the event loop

Once the clock has passed a deadline, every task that is inserted expires later, so
that the tasks before the deadline can only become fewer.  Each round of the loop takes
one of them out, and after finitely many rounds the task is popped and its coroutine
resumed.
-/

namespace CsInternal.Cpu.EventLoop

open CsInternal.Library CsInternal.Cpu.PriorityQueue

section

variable {Addr Co : Type} [DecidableEq Addr] [DecidableEq Co]

/-- The clock reading of the step, if it reads the clock. -/
def Label.clock : Label Addr Co → Option Long
  | .loopEnd clock => clock
  | .resumed _ _ _ clock | .delayed _ _ clock _ _ => some clock
  | _ => none

/-- No coroutine asks for a negative delay. -/
def Label.DelaysForward : Label Addr Co → Prop
  | .delayed _ ms _ _ _ => 0 ≤ ms.toInt
  | _ => True

/-- Steps with the last clock reading: time does not go back, allocations succeed, and
deadlines are neither negative nor out of range. -/
structure TimedStep (s : State Addr Co × Int) (l : Label Addr Co) (s' : State Addr Co × Int) :
    Prop where
  step : Step s.1 l s'.1
  allocations : l.AllocationsSucceed
  inRange : l.ExpireInRange
  forward : l.DelaysForward
  clock : l.clock.elim (s'.2 = s.2) fun clock => s.2 ≤ clock.toInt ∧ s'.2 = clock.toInt

def timedRuntime (Addr Co : Type) [DecidableEq Addr] [DecidableEq Co] :
    System (State Addr Co × Int) (Label Addr Co) where
  init s := Initial s.1
  step := TimedStep

variable {s s' : State Addr Co × Int} {l : Label Addr Co}

theorem TimedStep.now_le (h : TimedStep s l s') : s.2 ≤ s'.2 := by
  have hclock := h.clock
  cases hread : l.clock with
  | none =>
      rw [hread] at hclock
      have hsame : s'.2 = s.2 := hclock
      exact le_of_eq hsame.symm
  | some clock =>
      rw [hread] at hclock
      obtain ⟨hle, hset⟩ := hclock
      exact hset ▸ hle

/-- The invariants of the loop. -/
structure TimedInv (s : State Addr Co × Int) : Prop where
  inv : Inv s.1
  deadlines : DeadlinesInRange s.1

omit [DecidableEq Co] in
theorem timedInv_of_initial (hinit : Initial s.1) : TimedInv s where
  inv := inv_of_initial hinit
  deadlines a ha := by
    obtain ⟨uninitialised, hqueue⟩ := hinit.queue
    rw [pending, hqueue] at ha
    exact absurd ha (Multiset.notMem_zero a)

theorem TimedInv.step (h : TimedInv s) (hstep : TimedStep s l s') : TimedInv s' where
  inv := h.inv.step hstep.allocations hstep.step
  deadlines := h.deadlines.step h.inv hstep.allocations hstep.inRange hstep.step

/-- A task stays in the queue with its deadline and its coroutine until it is popped. -/
theorem task_kept (h : Inv s.1) (hstep : TimedStep s l s') {a : Addr} (ha : a ∈ pending s.1) :
    (a ∈ pending s'.1 ∧ (s'.1.task a).expire = (s.1.task a).expire ∧
        (s'.1.task a).coroutine = (s.1.task a).coroutine) ∨
      ∃ clock, l = .resumed a (s.1.task a).expire (s.1.task a).coroutine clock := by
  obtain ⟨s', now'⟩ := s'
  obtain hgoto | hboot | hresumed | hdelayed := step_cases h hstep.allocations hstep.step
  · obtain ⟨_, _, _, _, rfl, -⟩ := hgoto
    exact .inl ⟨ha, rfl, rfl⟩
  · obtain ⟨_, _, _, _, rfl⟩ := hboot
    exact .inl ⟨ha, rfl, rfl⟩
  · obtain ⟨a', clock, queue, task, _, rfl, rfl, _, hpop, hview⟩ := hresumed
    by_cases hsame : a = a'
    · exact .inr ⟨clock, by rw [hsame]⟩
    · rw [hpop, Multiset.mem_cons] at ha
      exact .inl ⟨ha.resolve_left hsame, expire_eq_of_view hview a, coroutine_eq_of_view hview a⟩
  · obtain ⟨c, a', ms, clock, queue, task, _, _, hfresh, rfl, _, hinsert, hview⟩ := hdelayed
    have hne : a ≠ a' := fun heq => hfresh (heq ▸ ha)
    refine .inl ⟨?_, ?_, ?_⟩
    · change a ∈ elements queue
      rw [hinsert]
      exact Multiset.mem_cons_of_mem ha
    · exact (expire_eq_of_view hview a).trans (by rw [written_of_ne _ _ hne])
    · exact (coroutine_eq_of_view hview a).trans (by rw [written_of_ne _ _ hne])

def dueIn (deadline : Int) (task : Addr → DelayTask Co) (tasks : Multiset Addr) : Nat :=
  tasks.countP fun a => (task a).expire.toInt ≤ deadline

/-- How many tasks in the queue expire by then. -/
def due (deadline : Int) (s : State Addr Co) : Nat := dueIn deadline s.task (pending s)

/-- The steps until the inner loop looks at the queue. -/
def MainPoint.stage : MainPoint Co → Nat
  | .boot todo => 2 * todo.length + 3
  | .outer => 2
  | .inner => 1

def stage (s : State Addr Co) : Nat :=
  match s.control with
  | .main point => point.stage
  | .coroutine _ => s.mainContext.stage + 1
  | .crashed => 0

def rank (deadline : Int) (s : State Addr Co × Int) : ℕ ×ₗ ℕ :=
  toLex (due deadline s.1, stage s.1)

omit [DecidableEq Addr] [DecidableEq Co] in
theorem rank_lt_of_stage {deadline : Int} (hdue : due deadline s'.1 = due deadline s.1)
    (hstage : stage s'.1 < stage s.1) : rank deadline s' < rank deadline s :=
  Prod.Lex.toLex_lt_toLex.mpr (.inr ⟨hdue, hstage⟩)

omit [DecidableEq Addr] [DecidableEq Co] in
theorem earliest_le {s : State Addr Co} (h : DeadlinesInRange s) {a a' : Addr}
    (ha : Earliest s a) (ha' : a' ∈ pending s) :
    (s.task a).expire.toInt ≤ (s.task a').expire.toInt := by
  have hle := ha.2 a' ha'
  rw [← toNat_eq_toInt (h a ha.1), ← toNat_eq_toInt (h a' ha')]
  exact Int.ofNat_le.mpr hle

omit [DecidableEq Addr] [DecidableEq Co] in
theorem dueIn_congr {task task' : Addr → DelayTask Co} {tasks : Multiset Addr} {deadline : Int}
    (hsame : ∀ a ∈ tasks, (task' a).expire = (task a).expire) :
    dueIn deadline task' tasks = dueIn deadline task tasks :=
  Multiset.countP_congr rfl fun a ha => by rw [hsame a ha]

omit [DecidableEq Addr] [DecidableEq Co] in
theorem dueIn_cons_of_le {task : Addr → DelayTask Co} {a : Addr} {tasks : Multiset Addr}
    {deadline : Int} (hexpired : (task a).expire.toInt ≤ deadline) :
    dueIn deadline task (a ::ₘ tasks) = dueIn deadline task tasks + 1 :=
  Multiset.countP_cons_of_pos (p := fun a => (task a).expire.toInt ≤ deadline) tasks hexpired

omit [DecidableEq Addr] [DecidableEq Co] in
theorem dueIn_cons_of_lt {task : Addr → DelayTask Co} {a : Addr} {tasks : Multiset Addr}
    {deadline : Int} (hlater : deadline < (task a).expire.toInt) :
    dueIn deadline task (a ::ₘ tasks) = dueIn deadline task tasks :=
  Multiset.countP_cons_of_neg (p := fun a => (task a).expire.toInt ≤ deadline) tasks
    (not_le_of_gt hlater)

/-- From then on every step brings the next due task nearer to its pop. -/
theorem rank_lt (h : TimedInv s) {deadline : Int} (hpassed : deadline < s.2)
    (hdue : 0 < due deadline s.1) (hstep : TimedStep s l s') :
    rank deadline s' < rank deadline s := by
  obtain ⟨s, now⟩ := s
  obtain ⟨s', now'⟩ := s'
  obtain ⟨a', ha', hexpired⟩ : ∃ a' ∈ pending s, (s.task a').expire.toInt ≤ deadline :=
    Multiset.countP_pos (p := fun a => (s.task a).expire.toInt ≤ deadline).mp hdue
  have hone := hstep.step
  cases hone with
  | boot c todo hcontrol =>
      refine rank_lt_of_stage rfl ?_
      change 2 * todo.length + 3 + 1 < stage s
      have hcontrol : s.control = .main (.boot (c :: todo)) := hcontrol
      rw [stage, hcontrol]
      change 2 * todo.length + 3 + 1 < 2 * (todo.length + 1) + 3
      omega
  | enterLoop hcontrol =>
      refine rank_lt_of_stage rfl ?_
      change 2 < stage s
      have hcontrol : s.control = .main (.boot []) := hcontrol
      rw [stage, hcontrol]
      exact Nat.lt_succ_self 2
  | usleep hcontrol =>
      refine rank_lt_of_stage rfl ?_
      change 1 < stage s
      have hcontrol : s.control = .main .outer := hcontrol
      rw [stage, hcontrol]
      exact Nat.lt_succ_self 1
  | inner clock hcontrol =>
      have hread := hstep.clock
      have hfirst : ∀ a, Earliest s a → (s.task a).expire.toInt ≤ deadline :=
        fun a ha => (earliest_le h.deadlines ha ha').trans hexpired
      obtain ⟨hend, hempty⟩ | ⟨a, hend, hearliest, hnot⟩ |
        ⟨a, queue, task, hend, hearliest, -, -, hpop, hview⟩ :=
        eventloopInner_cases clock h.inv.queue
      · have hnone : pending s = 0 := hempty
        rw [hnone] at ha'
        exact absurd ha' (Multiset.notMem_zero a')
      · rw [hend] at hread
        have hle : now ≤ clock.toInt := hread.1
        have hlt : (s.task a).expire.toInt < clock.toInt :=
          (hfirst a hearliest).trans_lt (lt_of_lt_of_le hpassed hle)
        exact absurd (BitVec.slt_iff_toInt_lt.mpr hlt) hnot
      · refine Prod.Lex.toLex_lt_toLex.mpr (.inl ?_)
        rw [hend]
        have hpop : pending s = a ::ₘ elements queue := hpop
        change dueIn deadline task (elements queue) < dueIn deadline s.task (pending s)
        rw [dueIn_congr fun a' _ => expire_eq_of_view hview a', hpop,
          dueIn_cons_of_le (hfirst a hearliest)]
        exact Nat.lt_succ_self _
  | delay c ms clock malloc realloc hcontrol hmalloc =>
      have hread := hstep.clock
      obtain ⟨hsome, hrealloc⟩ := hstep.allocations
      obtain ⟨a, rfl⟩ := Option.ne_none_iff_exists'.mp hsome
      subst hrealloc
      have hfresh := h.inv.not_pending (hmalloc a rfl)
      obtain ⟨queue, task, hdelay, -, hinsert, hview⟩ :=
        delay_spec c ms clock a h.inv.queue hfresh
      have hnew : deadline < (ms.signExtend 64 + clock).toInt := by
        have hle : now ≤ clock.toInt := hread.1
        have hforward : 0 ≤ ms.toInt := hstep.forward
        have hpassed : deadline < now := hpassed
        rw [expire_toInt hstep.inRange.1 hstep.inRange.2]
        omega
      refine rank_lt_of_stage ?_ ?_
      · change due deadline (delay s c ms clock (some a) true) = due deadline s
        rw [hdelay]
        change dueIn deadline task (elements queue) = dueIn deadline s.task (pending s)
        have hself : deadline < (task a).expire.toInt := by
          rw [expire_eq_of_view hview, written, Function.update_self]
          exact hnew
        rw [hinsert, dueIn_cons_of_lt hself]
        refine dueIn_congr fun a' ha' => ?_
        have hne : a' ≠ a := fun heq => hfresh (heq ▸ ha')
        rw [expire_eq_of_view hview, written_of_ne s _ hne]
      · change stage (delay s c ms clock (some a) true) < stage s
        have hcontrol : s.control = .coroutine c := hcontrol
        rw [hdelay, stage, stage, hcontrol]
        exact Nat.lt_succ_self _

/-! ## Every sleeper wakes up -/

theorem timedInv_at (e : (timedRuntime Addr Co).Execution) (n : ℕ) : TimedInv (e.state n) :=
  (e.reachable n).invariant (fun _ => timedInv_of_initial) fun _ _ _ => TimedInv.step

theorem now_le_later (e : (timedRuntime Addr Co).Execution) (n k : ℕ) :
    (e.state n).2 ≤ (e.state (n + k)).2 := by
  induction k with
  | zero => exact le_refl _
  | succ k ih =>
      have hnext := e.next (n + k)
      cases hlabel : e.label (n + k) with
      | none =>
          rw [hlabel] at hnext
          have hsame : e.state (n + (k + 1)) = e.state (n + k) := hnext
          rw [hsame]
          exact ih
      | some l =>
          rw [hlabel] at hnext
          exact ih.trans (TimedStep.now_le hnext)

/-- The task is in the queue and expires then. -/
def QueuedFor (a : Addr) (expire : Long) (s : State Addr Co × Int) : Prop :=
  a ∈ pending s.1 ∧ (s.1.task a).expire = expire

/-- A task that is no longer queued as it was has been popped and its coroutine resumed. -/
theorem kept_or_resumed (e : (timedRuntime Addr Co).Execution) {n : ℕ} {a : Addr}
    (ha : a ∈ pending (e.state n).1) (k : ℕ) :
    (QueuedFor a ((e.state n).1.task a).expire (e.state (n + k)) ∧
        ((e.state (n + k)).1.task a).coroutine = ((e.state n).1.task a).coroutine) ∨
      ∃ m clock, n ≤ m ∧ e.label m = some (.resumed a ((e.state n).1.task a).expire
        ((e.state n).1.task a).coroutine clock) := by
  induction k with
  | zero => exact .inl ⟨⟨ha, rfl⟩, rfl⟩
  | succ k ih =>
      obtain ⟨⟨hqueued, hexpire⟩, hcoroutine⟩ | hresumed := ih
      · have hnext := e.next (n + k)
        cases hlabel : e.label (n + k) with
        | none =>
            rw [hlabel] at hnext
            have hsame : e.state (n + (k + 1)) = e.state (n + k) := hnext
            rw [hsame]
            exact .inl ⟨⟨hqueued, hexpire⟩, hcoroutine⟩
        | some l =>
            rw [hlabel] at hnext
            rw [← hexpire, ← hcoroutine]
            obtain ⟨hmem, hexpire', hcoroutine'⟩ | ⟨clock, hl⟩ :=
              task_kept (timedInv_at e (n + k)).inv hnext hqueued
            · exact .inl ⟨⟨hmem, hexpire'⟩, hcoroutine'⟩
            · exact .inr ⟨n + k, clock, Nat.le_add_right n k, by rw [hlabel, hl]⟩
      · exact .inr hresumed

/-- The loop once the clock has passed a deadline. -/
def lateRuntime (Addr Co : Type) [DecidableEq Addr] [DecidableEq Co] (deadline : Int) :
    System (State Addr Co × Int) (Label Addr Co) :=
  ⟨fun s => TimedInv s ∧ deadline < s.2, (timedRuntime Addr Co).step⟩

theorem late_of_reachable {deadline : Int}
    (hs : (lateRuntime Addr Co deadline).Reachable s) : TimedInv s ∧ deadline < s.2 := by
  have hkeep : ∀ s l s', TimedInv s ∧ deadline < s.2 →
      (lateRuntime Addr Co deadline).step s l s' → TimedInv s' ∧ deadline < s'.2 :=
    fun s l s' ⟨hinv, hpassed⟩ hstep =>
      ⟨hinv.step hstep, hpassed.trans_le (TimedStep.now_le hstep)⟩
  exact hs.invariant (fun _ hinit => hinit) hkeep

theorem late_progress (a : Addr) (expire : Long) :
    (lateRuntime Addr Co expire.toInt).Progress (fun _ => ()) (fun s _ => a ∈ pending s.1)
      (fun s => ¬ QueuedFor a expire s) (rank expire.toInt) fun s _ => QueuedFor a expire s where
  exists_helpful _ _ hqueued := ⟨(), not_not.mp hqueued⟩
  ready_of_helpful _ _ _ hqueued := hqueued.1
  own s l s' hs hstep hqueued := by
    obtain ⟨hinv, hpassed⟩ := late_of_reachable hs
    have hdue : 0 < due expire.toInt s.1 :=
      Multiset.countP_pos (p := fun a => (s.1.task a).expire.toInt ≤ expire.toInt).mpr
        ⟨a, hqueued.1, le_of_eq (congrArg BitVec.toInt hqueued.2)⟩
    exact rank_lt hinv hpassed hdue hstep
  other _ _ _ _ _ _ _ hagent := absurd rfl hagent

/--
No coroutine starves: when a task is queued, the clock reads past its deadline at some
time, and the program does not stop while the task is queued, the loop pops the task and
resumes its coroutine, however many tasks the other coroutines insert meanwhile.
-/
theorem eventloop_no_starvation (e : (timedRuntime Addr Co).Execution) {n : ℕ} {a : Addr}
    (ha : a ∈ pending (e.state n).1)
    (htime : ∃ k, ((e.state n).1.task a).expire.toInt < (e.state k).2)
    (hruns : e.Fair (fun _ => ()) fun s _ => a ∈ pending s.1) :
    ∃ m clock, n ≤ m ∧ e.label m = some (.resumed a ((e.state n).1.task a).expire
      ((e.state n).1.task a).coroutine clock) := by
  obtain ⟨k, hpassed⟩ := htime
  have hlate : TimedInv (e.state (n + k)) ∧
      ((e.state n).1.task a).expire.toInt < (e.state (n + k)).2 :=
    ⟨timedInv_at e (n + k), hpassed.trans_le (Nat.add_comm n k ▸ now_le_later e k n)⟩
  obtain ⟨j, hgone⟩ := (late_progress a ((e.state n).1.task a).expire).eventually
    (e.drop (n + k) _ hlate) (hruns.drop (n + k) _ hlate)
  have hgone : ¬ QueuedFor a ((e.state n).1.task a).expire (e.state (n + (k + j))) := by
    rw [← Nat.add_assoc]
    exact hgone
  obtain ⟨hqueued, -⟩ | hresumed := kept_or_resumed e ha (k + j)
  · exact absurd hqueued hgone
  · exact hresumed

end

/-!
Coroutine 1 sleeps until 3000.  Coroutine 2 wakes up at 1500 and at 2700 and inserts a task
each time; the second expires later.
-/

def rivalNext : ℕ → State Nat Nat → State Nat Nat
  | 0, s => coroutineResume s (.boot [2]) 1
  | 1, s => delay s 1 3000 0 (some 10) true
  | 2, s => coroutineResume s (.boot []) 2
  | 3, s => delay s 2 1000 0 (some 20) true
  | 4, s => { s with control := .main .outer }
  | 5, s => { s with control := .main .inner }
  | 6, s => (eventloopInner s 1500).2
  | 7, s => delay s 2 1000 1500 (some 20) true
  | 8, s => (eventloopInner s 2700).2
  | 9, s => delay s 2 1000 2700 (some 30) true
  | 10, s => (eventloopInner s 4000).2
  | _, s => s

def rivalState : ℕ → State Nat Nat
  | 0 => sampleStart
  | n + 1 => rivalNext n (rivalState n)

def rivalNow : ℕ → Int
  | 0 | 1 | 2 | 3 | 4 | 5 | 6 => 0
  | 7 | 8 => 1500
  | 9 | 10 => 2700
  | _ => 4000

def rivalLabel : ℕ → Option (Label Nat Nat)
  | 0 => some (.bootResume 1)
  | 1 => some (.delayed 1 3000 0 (some 10) true)
  | 2 => some (.bootResume 2)
  | 3 => some (.delayed 2 1000 0 (some 20) true)
  | 4 => some .enterLoop
  | 5 => some .usleep
  | 6 => some (.resumed 20 1000 2 1500)
  | 7 => some (.delayed 2 1000 1500 (some 20) true)
  | 8 => some (.resumed 20 2500 2 2700)
  | 9 => some (.delayed 2 1000 2700 (some 30) true)
  | 10 => some (.resumed 10 3000 1 4000)
  | _ => none

theorem delay_timed {s : State Nat Nat} {c a : Nat} {ms : BitVec 32} {clock : Long}
    {now now' : Int} (h : s.control = .coroutine c ∧ s.current = c ∧ s.allocated a = false)
    (hrange : 0 ≤ ms.toInt ∧ 0 ≤ ms.toInt + clock.toInt ∧ ms.toInt + clock.toInt < 2 ^ 63)
    (hnow : now ≤ clock.toInt ∧ now' = clock.toInt) :
    TimedStep (s, now) (.delayed c ms clock (some a) true)
      (delay s c ms clock (some a) true, now') := by
  obtain ⟨hcontrol, rfl, hfree⟩ := h
  refine ⟨?_, ⟨Option.some_ne_none a, rfl⟩, hrange.2, hrange.1, hnow⟩
  exact .delay s _ ms clock (some a) true hcontrol fun a' ha' => Option.some.inj ha' ▸ hfree

theorem resumed_timed {s : State Nat Nat} {c a : Nat} {expire clock : Long} {now now' : Int}
    (h : s.control = .main .inner ∧ (eventloopInner s clock).1 = .resumed a expire c clock)
    (hnow : now ≤ clock.toInt ∧ now' = clock.toInt) :
    TimedStep (s, now) (.resumed a expire c clock) ((eventloopInner s clock).2, now') :=
  ⟨h.2 ▸ .inner s clock h.1, trivial, trivial, trivial, hnow⟩

def rivalExecution : (timedRuntime Nat Nat).Execution where
  state n := (rivalState n, rivalNow n)
  label := rivalLabel
  init := sampleStart_initial
  next n := by
    obtain _ | _ | _ | _ | _ | _ | _ | _ | _ | _ | _ | n := n
    · exact ⟨.boot _ 1 [2] rfl, trivial, trivial, trivial, rfl⟩
    · exact delay_timed (by decide +kernel) (by decide) (by decide)
    · exact ⟨.boot _ 2 [] rfl, trivial, trivial, trivial, rfl⟩
    · exact delay_timed (by decide +kernel) (by decide) (by decide)
    · exact ⟨.enterLoop _ rfl, trivial, trivial, trivial, rfl⟩
    · exact ⟨.usleep _ rfl, trivial, trivial, trivial, rfl⟩
    · exact resumed_timed (by decide +kernel) (by decide)
    · exact delay_timed (by decide +kernel) (by decide) (by decide)
    · exact resumed_timed (by decide +kernel) (by decide)
    · exact delay_timed (by decide +kernel) (by decide) (by decide)
    · exact resumed_timed (by decide +kernel) (by decide)
    · rfl

theorem rivalState_end {n : ℕ} (hn : 11 ≤ n) : rivalState n = rivalState 11 := by
  induction n, hn using Nat.le_induction with
  | base => rfl
  | succ n hn ih =>
      obtain ⟨k, rfl⟩ := Nat.exists_eq_add_of_le' hn
      rw [← ih]
      rfl

theorem rivalExecution_fair :
    rivalExecution.Fair (fun _ => ()) fun s _ => 10 ∈ pending s.1 := by
  have hpopped : 10 ∉ pending (rivalState 11) := by decide +kernel
  have hend : ∀ n, 11 ≤ n → rivalExecution.state n = (rivalState 11, 4000) := by
    intro n hn
    obtain ⟨k, rfl⟩ := Nat.exists_eq_add_of_le' hn
    exact Prod.ext (rivalState_end hn) rfl
  exact System.Execution.fair_of_end hend fun _ => hpopped

theorem eventloop_no_starvation_sample :
    ∃ m clock, 2 ≤ m ∧ rivalLabel m = some (.resumed 10 3000 1 clock) := by
  have hqueued : 10 ∈ pending (rivalState 2) := by decide +kernel
  have htask : ((rivalState 2).task 10).expire = 3000 ∧ ((rivalState 2).task 10).coroutine = 1 := by
    decide +kernel
  have hlate : ((rivalState 2).task 10).expire.toInt < rivalNow 11 := by
    rw [htask.1]
    decide
  obtain ⟨m, clock, hm, hresumed⟩ :=
    eventloop_no_starvation rivalExecution hqueued ⟨11, hlate⟩ rivalExecution_fair
  have hresumed : rivalLabel m = some (.resumed 10 ((rivalState 2).task 10).expire
    ((rivalState 2).task 10).coroutine clock) := hresumed
  rw [htask.1, htask.2] at hresumed
  exact ⟨m, clock, hm, hresumed⟩

end CsInternal.Cpu.EventLoop
