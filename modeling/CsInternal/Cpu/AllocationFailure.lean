import CsInternal.Cpu.EventLoopSafety

/-!
# Allocation failures under the event loop

`delay` uses the result of `malloc` without a test and ignores what
`pqueue_insert` returns.  A sleeping coroutine therefore has its timer exactly
as long as no call of `delay` meets a failing `malloc`, or a failing `realloc`
on a queue that has to grow.  On a queue with room `realloc` is not called, and
what it would have answered does not matter.
-/

namespace CsInternal.Cpu.EventLoop

open CsInternal.Library CsInternal.Cpu.PriorityQueue

section

variable {Addr Co : Type} [DecidableEq Addr] [DecidableEq Co] {s s' : State Addr Co}
  {l : Label Addr Co}

/-- The allocations that the step makes succeed: `malloc` always, and `realloc`
when the queue is full. -/
def Served (s : State Addr Co) : Label Addr Co → Prop
  | .delayed _ _ _ malloc realloc =>
      malloc ≠ none ∧ (s.queue.avail ≤ s.queue.size → realloc = true)
  | _ => True

/-- `c` waits in its call of `delay`; a coroutine that was resumed does not wait,
although its context still is the one saved at the yield. -/
def Suspended (s : State Addr Co) (c : Co) : Prop :=
  Sleeping s c ∧ s.control ≠ .coroutine c

/-- No null pointer was dereferenced, and whoever waits has a task in the queue. -/
structure Timed (s : State Addr Co) : Prop where
  alive : s.control ≠ .crashed
  timer : ∀ c, Suspended s c → c ∈ named s

omit [DecidableEq Co] in
theorem Inv.timed (h : Inv s) : Timed s := by
  refine ⟨h.alive, ?_⟩
  rintro c ⟨⟨slot, hslot⟩, hwaits⟩
  have hown := h.owner slot
  rw [hslot] at hown
  change c = slot at hown
  subst hown
  exact (h.sleeping c hwaits).mpr hslot

omit [DecidableEq Addr] in
/-- With room in the queue, `realloc` is not called. -/
theorem pqueueInsert_of_room {M : Type} (cb : Callbacks M Addr) {q : PQueue Addr} (m : M)
    (a : Addr) (realloc : Bool) (hroom : q.size < q.avail) :
    pqueueInsert cb q m a realloc = pqueueInsert cb q m a true := by
  have hnot : ¬ q.size ≥ q.avail := by omega
  simp [pqueueInsert, hnot]

theorem delay_of_room (c : Co) (ms : BitVec 32) (clock : Long) (malloc : Option Addr)
    (realloc : Bool) (hroom : s.queue.size < s.queue.avail) :
    delay s c ms clock malloc realloc = delay s c ms clock malloc true := by
  cases malloc with
  | none => rfl
  | some a => rw [delay, delay, pqueueInsert_of_room _ _ _ realloc hroom]

omit [DecidableEq Co] in
/-- Only `delay` allocates. -/
theorem eventloopInner_allocates_nothing (s t : State Addr Co) (clock : Long) :
    (eventloopInner s clock).1.AllocationsSucceed ∧ Served t (eventloopInner s clock).1 := by
  unfold eventloopInner
  split
  · split
    · exact ⟨trivial, trivial⟩
    · split
      · split
        · exact ⟨trivial, trivial⟩
        · exact ⟨trivial, trivial⟩
      · exact ⟨trivial, trivial⟩
  · exact ⟨trivial, trivial⟩

/-- The invariant needs no more than the allocations that are made. -/
theorem Inv.step_of_served (h : Inv s) (hserved : Served s l) (hstep : Step s l s') :
    Inv s' := by
  cases hstep with
  | delay c ms clock malloc realloc hcontrol hmalloc =>
      have hallocations : malloc ≠ none ∧
        (s.queue.avail ≤ s.queue.size → realloc = true) := hserved
      obtain ⟨hsome, hrealloc⟩ := hallocations
      have hgranted : delay s c ms clock malloc realloc = delay s c ms clock malloc true := by
        by_cases hfull : s.queue.avail ≤ s.queue.size
        · rw [hrealloc hfull]
        · exact delay_of_room c ms clock malloc realloc (Nat.lt_of_not_le hfull)
      rw [hgranted]
      have hsucceeds : (Label.delayed s.current ms clock malloc true).AllocationsSucceed :=
        ⟨hsome, rfl⟩
      exact h.step hsucceeds (.delay s c ms clock malloc true hcontrol hmalloc)
  | boot c todo hcontrol => exact h.bootResume hcontrol
  | enterLoop hcontrol => exact h.goto hcontrol rfl
  | usleep hcontrol => exact h.goto hcontrol rfl
  | inner clock hcontrol =>
      exact h.step (eventloopInner_allocates_nothing s s clock).1 (.inner s clock hcontrol)

/-- A failed insertion leaves the running coroutine asleep and without a task. -/
theorem delay_unserved (h : Inv s) {c : Co} (hcontrol : s.control = .coroutine c)
    (ms : BitVec 32) (clock : Long) {a : Addr} (hfresh : a ∉ pending s)
    (hfull : s.queue.avail ≤ s.queue.size) :
    Suspended (delay s c ms clock (some a) false) c ∧
      named (delay s c ms clock (some a) false) = named s := by
  have hinsert : ∀ task, pqueueInsert (callbacks Addr Co) s.queue task a false =
      (1, s.queue, task) := by
    intro task
    simp [pqueueInsert, hfull]
  have hdelay : delay s c ms clock (some a) false = coroutineYield
      { s with
        task := written s a (ms.signExtend 64 + clock)
        allocated := Function.update s.allocated a true } c := by
    simp only [delay, hinsert]
    rfl
  rw [hdelay]
  constructor
  · obtain ⟨hcurrent, _⟩ := h.running c hcontrol
    refine ⟨⟨c, ?_⟩, ?_⟩
    · simp [coroutineYield, hcurrent]
    · simp [coroutineYield]
  · refine Multiset.map_congr rfl fun a' ha' => ?_
    have hne : a' ≠ a := fun heq => hfresh (heq ▸ ha')
    change (written s a (ms.signExtend 64 + clock) a').coroutine = (s.task a').coroutine
    rw [written_of_ne s _ hne]

/-- The first failing allocation is fatal to the guarantee. -/
theorem not_timed_of_unserved (h : Inv s) (hunserved : ¬ Served s l) (hstep : Step s l s') :
    ¬ Timed s' := by
  intro htimed
  cases hstep with
  | delay c ms clock malloc realloc hcontrol hmalloc =>
      cases malloc with
      | none => exact htimed.alive rfl
      | some a =>
          have hfailed : s.queue.avail ≤ s.queue.size ∧ realloc = false := by
            by_contra hnot
            refine hunserved ⟨by simp, fun hfull => ?_⟩
            by_contra hrealloc
            exact hnot ⟨hfull, by simpa using hrealloc⟩
          obtain ⟨hfull, rfl⟩ := hfailed
          have hfresh := h.not_pending (hmalloc a rfl)
          obtain ⟨hsuspended, hnamed⟩ := delay_unserved h hcontrol ms clock hfresh hfull
          have hmem := htimed.timer c hsuspended
          rw [hnamed] at hmem
          exact (h.running c hcontrol).2.1 hmem
  | boot | enterLoop | usleep => exact hunserved trivial
  | inner clock hcontrol =>
      exact hunserved (eventloopInner_allocates_nothing s s clock).2

theorem inv_of_served_run (hs : ((runtime Addr Co).restrict Served).Reachable s) : Inv s :=
  hs.invariant (fun _ => inv_of_initial) fun _ _ _ h hstep => h.step_of_served hstep.2 hstep.1

/--
Along every run whose allocations succeed where they are made, no null pointer
is dereferenced and every coroutine suspended by `delay` has a task in the
queue; and the condition is exact, since the first step that violates it ends
in a state without this property.
-/
theorem suspended_has_timer (hs : ((runtime Addr Co).restrict Served).Reachable s) :
    Timed s ∧ ∀ l s', (runtime Addr Co).step s l s' → (Timed s' ↔ Served s l) := by
  have hinv := inv_of_served_run hs
  refine ⟨hinv.timed, fun l s' hstep => ⟨fun htimed => ?_, fun hserved => ?_⟩⟩
  · by_contra hunserved
    exact not_timed_of_unserved hinv hunserved hstep htimed
  · exact (hinv.step_of_served hserved hstep).timed

end

/-- Coroutine 1 has been resumed for the first time. -/
def sampleRunning : State Nat Nat := coroutineResume sampleStart (.boot [2]) 1

theorem sampleRunning_served : ((runtime Nat Nat).restrict Served).Reachable sampleRunning := by
  have hstart : ((runtime Nat Nat).restrict Served).Reachable sampleStart :=
    .of_init sampleStart_initial
  exact hstart.step_admitted (Step.boot sampleStart 1 [2] rfl) trivial

theorem suspended_has_timer_sample :
    Timed sampleRunning ∧ ∀ l s', (runtime Nat Nat).step sampleRunning l s' →
      (Timed s' ↔ Served sampleRunning l) :=
  suspended_has_timer sampleRunning_served

theorem bubbleUpLoop_room {M P : Type} (cb : Callbacks M P) (pri : Pri) (q : PQueue P) (m : M)
    (i : Nat) : (bubbleUpLoop cb pri q m i).2.1.size = q.size ∧
      (bubbleUpLoop cb pri q m i).2.1.avail = q.avail := by
  fun_induction bubbleUpLoop cb pri q m i <;> simp_all [PQueue.store]

theorem delay_room {s : State Nat Nat} (c : Nat) (ms : BitVec 32) (clock : Long) (a : Nat)
    (realloc : Bool) (hroom : s.queue.size < s.queue.avail) :
    (delay s c ms clock (some a) realloc).queue.size = s.queue.size + 1 ∧
      (delay s c ms clock (some a) realloc).queue.avail = s.queue.avail := by
  have hnot : ¬ s.queue.avail ≤ s.queue.size := by omega
  simp [delay, pqueueInsert, hnot, bubbleUp, coroutineYield, PQueue.store, bubbleUpLoop_room]

/-- Main resumes the next coroutine, which goes to sleep while the queue has room. -/
theorem boot_and_sleep {s : State Nat Nat} {c : Nat} {todo : List Nat}
    (hs : ((runtime Nat Nat).restrict Served).Reachable s)
    (hcontrol : s.control = .main (.boot (c :: todo))) (hfree : s.allocated c = false)
    (hroom : s.queue.size < s.queue.avail) :
    ∃ s', ((runtime Nat Nat).restrict Served).Reachable s' ∧ s'.control = .main (.boot todo) ∧
      s'.queue.size = s.queue.size + 1 ∧ s'.queue.avail = s.queue.avail ∧
      s'.allocated = Function.update s.allocated c true := by
  let r := coroutineResume s (.boot todo) c
  have hbooted := hs.step_admitted (Step.boot s c todo hcontrol) trivial
  have hrunning : r.control = .coroutine c :=
    congrArg Control.coroutine ((inv_of_served_run hs).owner c)
  have hdelayed : Step r (.delayed r.current 0 0 (some c) false)
      (delay r c 0 0 (some c) false) := by
    refine .delay r c 0 0 (some c) false hrunning fun a ha => ?_
    cases ha
    exact hfree
  have hserved : Served r (.delayed r.current 0 0 (some c) false) :=
    ⟨by simp, fun hfull => absurd hroom (Nat.not_lt.mpr hfull)⟩
  obtain ⟨hsize, havail⟩ := delay_room (s := r) c 0 0 c false hroom
  exact ⟨_, hbooted.step_admitted hdelayed hserved, rfl, hsize, havail, rfl⟩

/-- While the queue has room, one coroutine after the other goes to sleep. -/
theorem fill_queue (todo rest : List Nat) (hnodup : todo.Nodup) {s : State Nat Nat}
    (hs : ((runtime Nat Nat).restrict Served).Reachable s)
    (hcontrol : s.control = .main (.boot (todo ++ rest)))
    (hfree : ∀ c ∈ todo, s.allocated c = false)
    (hroom : s.queue.size + todo.length ≤ s.queue.avail) :
    ∃ s', ((runtime Nat Nat).restrict Served).Reachable s' ∧
      s'.control = .main (.boot rest) ∧ s'.queue.size = s.queue.size + todo.length ∧
      s'.queue.avail = s.queue.avail ∧ ∀ c ∉ todo, s'.allocated c = s.allocated c := by
  induction todo generalizing s with
  | nil => exact ⟨s, hs, hcontrol, rfl, rfl, fun _ _ => rfl⟩
  | cons c todo ih =>
      obtain ⟨hc, htodo⟩ := List.nodup_cons.mp hnodup
      rw [List.length_cons] at hroom
      obtain ⟨r, hr, hrcontrol, hrsize, hravail, hrallocated⟩ :=
        boot_and_sleep hs hcontrol (hfree c List.mem_cons_self) (by omega)
      have hkept : ∀ c' ≠ c, r.allocated c' = s.allocated c' := by
        intro c' hne
        rw [hrallocated, Function.update_of_ne hne]
      have hrfree : ∀ c' ∈ todo, r.allocated c' = false := by
        intro c' hc'
        rw [hkept c' fun heq => hc (heq ▸ hc')]
        exact hfree c' (List.mem_cons_of_mem c hc')
      obtain ⟨s', hs', hcontrol', hsize, havail, hallocated⟩ :=
        ih htodo hr hrcontrol hrfree (by omega)
      refine ⟨s', hs', hcontrol', by rw [hsize, hrsize, List.length_cons]; omega,
        havail.trans hravail, fun c' hc' => ?_⟩
      rw [List.mem_cons, not_or] at hc'
      rw [hallocated c' hc'.2, hkept c' hc'.1]

/-- More coroutines than the queue of `pqueue_init(100, ..)` has slots. -/
def crowd : State Nat Nat := { sampleStart with control := .main (.boot (List.range 101)) }

/-- The queue is full and the last coroutine is still to be resumed. -/
theorem full_queue_reachable : ∃ s, ((runtime Nat Nat).restrict Served).Reachable s ∧
    s.control = .main (.boot [100]) ∧ s.queue.avail ≤ s.queue.size ∧
    s.allocated 100 = false := by
  have hstart : ((runtime Nat Nat).restrict Served).Reachable crowd :=
    .of_init ⟨⟨_, rfl⟩, fun _ => rfl, ⟨_, List.nodup_range, rfl⟩⟩
  have hlist : List.range 101 = List.range 100 ++ [100] := List.range_succ
  have hcontrol : crowd.control = .main (.boot (List.range 100 ++ [100])) := by
    rw [← hlist]
    rfl
  obtain ⟨s, hs, hs', hsize, havail, hallocated⟩ := fill_queue (List.range 100) [100]
    List.nodup_range hstart hcontrol (fun _ _ => rfl) (by rw [List.length_range]; decide)
  refine ⟨s, hs, hs', ?_, hallocated 100 (by simp)⟩
  rw [hsize, havail, List.length_range]
  decide

/-- `malloc` returns null in the first call of `delay`. -/
theorem delay_null_task : ∃ s, (runtime Nat Nat).Reachable s ∧ s.control = .crashed := by
  have hstart : (runtime Nat Nat).Reachable sampleStart := .of_init sampleStart_initial
  have hrunning := hstart.step (.boot sampleStart 1 [2] rfl)
  exact ⟨_, hrunning.step (.delay _ 1 3000 0 none true rfl (by simp)), rfl⟩

/-- `realloc` returns null for the task of the hundred and first coroutine, which
sleeps without a task. -/
theorem delay_task_dropped : ∃ s, (runtime Nat Nat).Reachable s ∧ s.control ≠ .crashed ∧
    ∃ c, Suspended s c ∧ c ∉ named s := by
  obtain ⟨s, hs, hcontrol, hfull, hfree⟩ := full_queue_reachable
  have hbooted := hs.step_admitted (Step.boot s 100 [] hcontrol) trivial
  have hinv := inv_of_served_run hbooted
  have hrunning : (coroutineResume s (.boot []) 100).control = .coroutine 100 :=
    congrArg Control.coroutine ((inv_of_served_run hs).owner 100)
  have hfresh := hinv.not_pending (a := 100) hfree
  obtain ⟨hsuspended, hnamed⟩ := delay_unserved hinv hrunning 0 0 hfresh hfull
  have hreachable := (hbooted.of_restrict).step
    (.delay _ 100 0 0 (some 100) false hrunning (by rintro a ⟨⟩; exact hfree))
  refine ⟨_, hreachable, by simp [delay, coroutineYield], 100, hsuspended, ?_⟩
  rw [hnamed]
  exact (hinv.running 100 hrunning).2.1

/-- A failing `malloc` breaks one half of the guarantee, a failing `realloc` the other. -/
theorem timer_guarantee_fails :
    (¬ ∀ s, (runtime Nat Nat).Reachable s → s.control ≠ .crashed) ∧
      ¬ ∀ s, (runtime Nat Nat).Reachable s → ∀ c, Suspended s c → c ∈ named s := by
  constructor
  · intro hguarantee
    obtain ⟨s, hs, hcrashed⟩ := delay_null_task
    exact hguarantee s hs hcrashed
  · intro hguarantee
    obtain ⟨s, hs, _, c, hsuspended, hnamed⟩ := delay_task_dropped
    exact hnamed (hguarantee s hs c hsuspended)

end CsInternal.Cpu.EventLoop
