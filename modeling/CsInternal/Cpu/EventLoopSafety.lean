import CsInternal.Cpu.EventLoop

/-!
# Deadlines and wake-ups under the event loop

The invariant says which coroutines the queue names: while main runs, those
suspended by `delay`, and while a coroutine runs, all of them but that one.
Both the deadline order and the exact bookkeeping of timers follow from it and
from what insertion and removal do to the contents of the queue.
-/

namespace CsInternal.Cpu.EventLoop

open CsInternal.Library CsInternal.Cpu.PriorityQueue

section

variable {Addr Co : Type} [DecidableEq Addr]

/-- What of a task the queue leaves alone. -/
def view (task : Addr → DelayTask Co) : Addr → Long × Co :=
  fun a => ((task a).expire, (task a).coroutine)

omit [DecidableEq Addr] in
theorem expire_eq_of_view {task task' : Addr → DelayTask Co} (h : view task' = view task)
    (a : Addr) : (task' a).expire = (task a).expire :=
  congrArg Prod.fst (congrFun h a)

omit [DecidableEq Addr] in
theorem coroutine_eq_of_view {task task' : Addr → DelayTask Co} (h : view task' = view task)
    (a : Addr) : (task' a).coroutine = (task a).coroutine :=
  congrArg Prod.snd (congrFun h a)

/-- The callbacks order tasks by their deadline, read as an unsigned number. -/
theorem callbacks_lawful : Lawful (callbacks Addr Co) BitVec.toNat view where
  cmppri_iff next curr := by simp [callbacks, cmpPri, BitVec.lt_def]
  view_setpos task a i := by
    funext a'
    by_cases ha : a' = a
    · subst ha
      simp [callbacks, setPos, view]
    · simp [callbacks, setPos, view, ha]
  getpri_of_view task task' h := by
    funext a
    exact expire_eq_of_view h a

/-- The queue is in order for the deadlines in memory. -/
abbrev QueueOk (queue : PQueue Addr) (task : Addr → DelayTask Co) : Prop :=
  WellFormed (callbacks Addr Co) BitVec.toNat queue task

/-- The task that `delay` is about to insert, with its fields written. -/
def written (s : State Addr Co) (a : Addr) (expire : Long) : Addr → DelayTask Co :=
  Function.update s.task a { s.task a with expire := expire, coroutine := s.current }

theorem written_of_ne (s : State Addr Co) {a a' : Addr} (expire : Long) (hne : a' ≠ a) :
    written s a expire a' = s.task a' := by
  simp [written, hne]

/-- What `delay` does when its allocations succeed. -/
theorem delay_spec [DecidableEq Co] {s : State Addr Co} (self : Co) (ms : BitVec 32)
    (clock : Long) (a : Addr) (hqueue : QueueOk s.queue s.task) (hfresh : a ∉ pending s) :
    ∃ queue task, delay s self ms clock (some a) true =
        coroutineYield
          { s with queue, task, allocated := Function.update s.allocated a true } self ∧
      QueueOk queue task ∧ elements queue = a ::ₘ pending s ∧
      view task = view (written s a (ms.signExtend 64 + clock)) := by
  have hwritten : QueueOk s.queue (written s a (ms.signExtend 64 + clock)) :=
    hqueue.congr fun a' ha' => by
      have hne : a' ≠ a := fun h => hfresh (h ▸ ha')
      simp only [key, callbacks, getPri, written_of_ne s _ hne]
  rcases pqueueInsert_spec callbacks_lawful hwritten a true with ⟨_, _, hfail⟩ | hinserted
  · exact absurd hfail (by decide)
  · obtain ⟨queue, task, hinsert, hok, helements, hview⟩ := hinserted
    refine ⟨queue, task, ?_, hok, helements, hview⟩
    rw [written] at hinsert
    simp only [delay, hinsert]

/-- No pending task expires before `a`, deadlines being compared unsigned. -/
def Earliest (s : State Addr Co) (a : Addr) : Prop :=
  a ∈ pending s ∧ ∀ a' ∈ pending s, (s.task a).expire.toNat ≤ (s.task a').expire.toNat

/-- All that one evaluation of the inner loop can do. -/
theorem eventloopInner_cases {s : State Addr Co} (clock : Long)
    (hqueue : QueueOk s.queue s.task) :
    (eventloopInner s clock = (.loopEnd none, { s with control := .main .outer }) ∧
      pending s = 0) ∨
    (∃ a, eventloopInner s clock = (.loopEnd (some clock), { s with control := .main .outer }) ∧
      Earliest s a ∧ ¬ (s.task a).expire.slt clock) ∨
    ∃ a queue task, eventloopInner s clock =
        (.resumed a (s.task a).expire (s.task a).coroutine clock,
          coroutineResume { s with queue, task, allocated := Function.update s.allocated a false }
            .inner (s.task a).coroutine) ∧
      Earliest s a ∧ (s.task a).expire.slt clock ∧ QueueOk queue task ∧
      pending s = a ::ₘ elements queue ∧ view task = view s.task := by
  have hpos := hqueue.nonempty
  by_cases hempty : s.queue.size = 1
  · refine Or.inl ⟨?_, (elements_eq_zero_iff hpos).mpr hempty⟩
    simp [eventloopInner, pqueueSize, hempty]
  · have hsize : pqueueSize s.queue > 0 := by
      rw [pqueueSize]
      omega
    have hpeek : pqueuePeek s.queue = some (s.queue.d 1) := by rw [pqueuePeek, if_neg hempty]
    generalize s.queue.d 1 = a at hpeek
    have hearliest : Earliest s a := pqueuePeek_spec hqueue hpeek
    by_cases hdue : (s.task a).expire.slt clock
    · obtain ⟨queue, task, hpop, hok, helements, hview⟩ :=
        pqueuePop_spec callbacks_lawful hqueue hpeek
      refine Or.inr (Or.inr ⟨a, queue, task, ?_, hearliest, hdue, hok, helements, hview⟩)
      simp only [eventloopInner, if_pos hsize, hpeek, if_pos hdue, hpop,
        expire_eq_of_view hview, coroutine_eq_of_view hview]
    · refine Or.inr (Or.inl ⟨a, ?_, hearliest, hdue⟩)
      simp only [eventloopInner, if_pos hsize, hpeek, if_neg hdue]

/-! ## The invariant -/

/-- The coroutines that main has still to resume for the first time. -/
def MainPoint.todo : MainPoint Co → List Co
  | .boot todo => todo
  | _ => []

/-- Where main is, or where it will go on. -/
def mainPoint (s : State Addr Co) : MainPoint Co :=
  match s.control with
  | .main point => point
  | _ => s.mainContext

structure Inv (s : State Addr Co) : Prop where
  queue : QueueOk s.queue s.task
  allocated : ∀ a ∈ pending s, s.allocated a = true
  distinct : (pending s).Nodup
  named_once : (named s).Nodup
  /-- Every context is the one of its own coroutine. -/
  owner : ∀ c, (s.context c).owner = c
  /-- The queue names the sleeping coroutines, apart from the running one. -/
  sleeping : ∀ c, s.control ≠ .coroutine c → (c ∈ named s ↔ s.context c = .afterYield c)
  running : ∀ c, s.control = .coroutine c →
    s.current = c ∧ c ∉ named s ∧ c ∉ (mainPoint s).todo
  todo_once : (mainPoint s).todo.Nodup
  todo_fresh : ∀ c ∈ (mainPoint s).todo, s.context c = .start c
  alive : s.control ≠ .crashed

theorem Inv.not_pending {s : State Addr Co} (h : Inv s) {a : Addr} (ha : s.allocated a = false) :
    a ∉ pending s := by
  intro hmem
  rw [h.allocated a hmem] at ha
  exact absurd ha (by decide)

theorem inv_of_initial {s : State Addr Co} (hinit : Initial s) : Inv s := by
  obtain ⟨uninitialised, hqueue⟩ := hinit.queue
  obtain ⟨todo, hnodup, hcontrol⟩ := hinit.control
  have hempty : pending s = 0 := by
    rw [pending, hqueue]
    rfl
  have hnamed : named s = 0 := by
    rw [named, hempty]
    rfl
  have hpoint : mainPoint s = .boot todo := by rw [mainPoint, hcontrol]
  refine ⟨?_, ?_, ?_, ?_, ?_, ?_, ?_, ?_, ?_, ?_⟩
  · rw [hqueue]
    refine ⟨?_, ?_, ?_, ?_⟩
    · simp [pqueueInit]
    · simp [pqueueInit]
    · simp [pqueueInit]
    · intro i hi hlt
      simp only [pqueueInit] at hlt
      omega
  · simp [hempty]
  · simp [hempty]
  · simp [hnamed]
  · intro c
    rw [hinit.context c]
    rfl
  · intro c _
    simp [hnamed, hinit.context c]
  · intro c hc
    rw [hcontrol] at hc
    exact absurd hc (by simp)
  · rw [hpoint]
    exact hnodup
  · intro c _
    exact hinit.context c
  · rw [hcontrol]
    simp

omit [DecidableEq Addr] in
/-- Tasks with the same view name the same coroutines. -/
theorem named_eq_of_view (elements : Multiset Addr) {task task' : Addr → DelayTask Co}
    (hview : view task' = view task) :
    (elements.map fun a => (task' a).coroutine) = elements.map fun a => (task a).coroutine :=
  Multiset.map_congr rfl fun a _ => coroutine_eq_of_view hview a

/-- Main goes on to a point with the same coroutines still to start. -/
theorem Inv.goto {s : State Addr Co} (h : Inv s) {point point' : MainPoint Co}
    (hcontrol : s.control = .main point) (htodo : point'.todo = point.todo) :
    Inv { s with control := .main point' } := by
  have hpoint : (mainPoint s).todo = point'.todo := by rw [mainPoint, hcontrol, htodo]
  refine ⟨h.queue, h.allocated, h.distinct, h.named_once, h.owner, ?_, ?_, ?_, ?_, ?_⟩
  · intro c _
    exact h.sleeping c (by simp [hcontrol])
  · intro c hc
    exact absurd hc (by simp)
  · have := h.todo_once
    rwa [hpoint] at this
  · have := h.todo_fresh
    rwa [hpoint] at this
  · simp

/-- Main resumes `c` for the first time. -/
theorem Inv.bootResume {s : State Addr Co} (h : Inv s) {c : Co} {todo : List Co}
    (hcontrol : s.control = .main (.boot (c :: todo))) :
    Inv (coroutineResume s (.boot todo) c) := by
  have hpoint : (mainPoint s).todo = c :: todo := by rw [mainPoint, hcontrol, MainPoint.todo]
  have honce := h.todo_once
  have hfresh := h.todo_fresh
  rw [hpoint] at honce hfresh
  have hmain : ∀ c', s.control ≠ .coroutine c' := by simp [hcontrol]
  have hstart : s.context c = .start c := hfresh c List.mem_cons_self
  refine ⟨h.queue, h.allocated, h.distinct, h.named_once, h.owner, ?_, ?_, ?_, ?_, ?_⟩
  · intro c' _
    exact h.sleeping c' (hmain c')
  · intro c' hc'
    have hown : (s.context c).owner = c' := by simpa [coroutineResume] using hc'
    rw [h.owner c] at hown
    subst hown
    refine ⟨rfl, fun hmem => ?_, (List.nodup_cons.mp honce).1⟩
    have hyield := (h.sleeping c (hmain c)).mp hmem
    rw [hstart] at hyield
    exact absurd hyield (by simp)
  · exact (List.nodup_cons.mp honce).2
  · exact fun c' hc' => hfresh c' (List.mem_cons_of_mem _ hc')
  · simp [coroutineResume]

/-- The event loop pops the task at `a` and resumes its coroutine. -/
theorem Inv.resumed {s : State Addr Co} (h : Inv s) (hcontrol : s.control = .main .inner)
    {a : Addr} {queue : PQueue Addr} {task : Addr → DelayTask Co} (hqueue : QueueOk queue task)
    (hpop : pending s = a ::ₘ elements queue) (hview : view task = view s.task) :
    Inv (coroutineResume
      { s with queue, task, allocated := Function.update s.allocated a false }
      .inner (s.task a).coroutine) := by
  have hmain : ∀ c, s.control ≠ .coroutine c := by simp [hcontrol]
  have hdistinct := h.distinct
  have hnamed : named s =
      (s.task a).coroutine ::ₘ (elements queue).map fun a => (task a).coroutine := by
    rw [named, hpop, Multiset.map_cons, named_eq_of_view _ hview]
  have honce := h.named_once
  rw [hnamed] at honce
  rw [hpop] at hdistinct
  obtain ⟨hgone, hrest⟩ := Multiset.nodup_cons.mp honce
  obtain ⟨hout, hkept⟩ := Multiset.nodup_cons.mp hdistinct
  refine ⟨hqueue, ?_, hkept, hrest, h.owner, ?_, ?_, ?_, ?_, ?_⟩
  · intro a' ha'
    have hne : a' ≠ a := fun heq => hout (heq ▸ ha')
    have hold := h.allocated a' (by rw [hpop]; exact Multiset.mem_cons_of_mem ha')
    simpa [coroutineResume, hne] using hold
  · intro c hc
    have hne : c ≠ (s.task a).coroutine := by
      rintro rfl
      exact hc (by simp [coroutineResume, h.owner])
    have hold := h.sleeping c (hmain c)
    rw [hnamed, Multiset.mem_cons] at hold
    exact ⟨fun hmem => hold.mp (Or.inr hmem), fun hyield => (hold.mpr hyield).resolve_left hne⟩
  · intro c hc
    have hown : (s.context (s.task a).coroutine).owner = c := by simpa [coroutineResume] using hc
    rw [h.owner] at hown
    subst hown
    exact ⟨rfl, hgone, by simp [coroutineResume, mainPoint, MainPoint.todo]⟩
  · exact List.nodup_nil
  · intro c hc
    exact absurd hc List.not_mem_nil
  · simp [coroutineResume]

/-- The running coroutine calls `delay`, and the task at `a` is inserted for it. -/
theorem Inv.delayed [DecidableEq Co] {s : State Addr Co} (h : Inv s) {c : Co}
    (hcontrol : s.control = .coroutine c) {a : Addr} {expire : Long} {queue : PQueue Addr}
    {task : Addr → DelayTask Co} (hfresh : a ∉ pending s) (hqueue : QueueOk queue task)
    (hinsert : elements queue = a ::ₘ pending s) (hview : view task = view (written s a expire)) :
    Inv (coroutineYield
      { s with queue, task, allocated := Function.update s.allocated a true } c) := by
  obtain ⟨hcurrent, hunnamed, huntodo⟩ := h.running c hcontrol
  have hpoint : mainPoint s = s.mainContext := by rw [mainPoint, hcontrol]
  rw [hpoint] at huntodo
  have hnamed : ((elements queue).map fun a => (task a).coroutine) = c ::ₘ named s := by
    rw [named_eq_of_view _ hview, hinsert, Multiset.map_cons, written, Function.update_self,
      hcurrent]
    refine congrArg _ (Multiset.map_congr rfl fun a' ha' => ?_)
    have hne : a' ≠ a := fun heq => hfresh (heq ▸ ha')
    simp [hne]
  refine ⟨hqueue, ?_, ?_, ?_, ?_, ?_, ?_, ?_, ?_, ?_⟩
  · intro a' ha'
    have hmem : a' = a ∨ a' ∈ pending s := by
      rw [← Multiset.mem_cons, ← hinsert]
      exact ha'
    by_cases heq : a' = a
    · simp [coroutineYield, heq]
    · simpa [coroutineYield, heq] using h.allocated a' (hmem.resolve_left heq)
  · change (elements queue).Nodup
    rw [hinsert]
    exact Multiset.nodup_cons.mpr ⟨hfresh, h.distinct⟩
  · change ((elements queue).map fun a => (task a).coroutine).Nodup
    rw [hnamed]
    exact Multiset.nodup_cons.mpr ⟨hunnamed, h.named_once⟩
  · intro c'
    by_cases heq : c' = c
    · simp [coroutineYield, hcurrent, heq, Flow.owner]
    · simpa [coroutineYield, hcurrent, heq] using h.owner c'
  · intro c' _
    change c' ∈ ((elements queue).map fun a => (task a).coroutine) ↔ _
    rw [hnamed, Multiset.mem_cons]
    by_cases heq : c' = c
    · simp [coroutineYield, hcurrent, heq]
    · have hold := h.sleeping c' (by rw [hcontrol]; simpa using fun h => heq h.symm)
      simpa [coroutineYield, hcurrent, heq] using hold
  · intro c' hc'
    exact absurd hc' (by simp [coroutineYield])
  · have honce := h.todo_once
    rwa [hpoint] at honce
  · intro c' hc'
    have hne : c' ≠ c := fun heq => huntodo (heq ▸ hc')
    have hold := h.todo_fresh c' (by rw [hpoint]; exact hc')
    simpa [coroutineYield, hcurrent, hne] using hold
  · simp [coroutineYield]

/-- All that a step whose allocations succeed can do to queue and contexts. -/
theorem step_cases [DecidableEq Co] {s s' : State Addr Co} {l : Label Addr Co} (h : Inv s)
    (halloc : l.AllocationsSucceed) (hstep : Step s l s') :
    (∃ point point', s.control = .main point ∧ point'.todo = point.todo ∧
      s' = { s with control := .main point' } ∧ l.inserted = 0 ∧ l.popped = 0) ∨
    (∃ c todo, s.control = .main (.boot (c :: todo)) ∧ l = .bootResume c ∧
      s' = coroutineResume s (.boot todo) c) ∨
    (∃ a clock queue task, s.control = .main .inner ∧
      l = .resumed a (s.task a).expire (s.task a).coroutine clock ∧
      s' = coroutineResume
        { s with queue, task, allocated := Function.update s.allocated a false }
        .inner (s.task a).coroutine ∧
      QueueOk queue task ∧ pending s = a ::ₘ elements queue ∧ view task = view s.task) ∨
    ∃ c a ms clock queue task, s.control = .coroutine c ∧
      l = .delayed s.current ms clock (some a) true ∧ a ∉ pending s ∧
      s' = coroutineYield
        { s with queue, task, allocated := Function.update s.allocated a true } c ∧
      QueueOk queue task ∧ elements queue = a ::ₘ pending s ∧
      view task = view (written s a (ms.signExtend 64 + clock)) := by
  cases hstep with
  | boot c todo hcontrol => exact Or.inr (Or.inl ⟨c, todo, hcontrol, rfl, rfl⟩)
  | enterLoop hcontrol => exact Or.inl ⟨_, .outer, hcontrol, rfl, rfl, rfl, rfl⟩
  | usleep hcontrol => exact Or.inl ⟨_, .inner, hcontrol, rfl, rfl, rfl, rfl⟩
  | inner clock hcontrol =>
      rcases eventloopInner_cases clock h.queue with ⟨hend, _⟩ | ⟨a, hend, _⟩ | hresumed
      · rw [hend]
        exact Or.inl ⟨_, .outer, hcontrol, rfl, rfl, rfl, rfl⟩
      · rw [hend]
        exact Or.inl ⟨_, .outer, hcontrol, rfl, rfl, rfl, rfl⟩
      · obtain ⟨a, queue, task, hresult, _, _, hok, hpop, hview⟩ := hresumed
        rw [hresult]
        exact Or.inr (Or.inr (Or.inl
          ⟨a, clock, queue, task, hcontrol, rfl, rfl, hok, hpop, hview⟩))
  | delay c ms clock malloc realloc hcontrol hmalloc =>
      obtain ⟨hsome, hrealloc⟩ := halloc
      obtain ⟨a, rfl⟩ := Option.ne_none_iff_exists'.mp hsome
      subst hrealloc
      have hfresh := h.not_pending (hmalloc a rfl)
      obtain ⟨queue, task, hdelay, hok, hinsert, hview⟩ :=
        delay_spec c ms clock a h.queue hfresh
      exact Or.inr (Or.inr (Or.inr
        ⟨c, a, ms, clock, queue, task, hcontrol, rfl, hfresh, hdelay, hok, hinsert, hview⟩))

theorem Inv.step [DecidableEq Co] {s s' : State Addr Co} {l : Label Addr Co} (h : Inv s)
    (halloc : l.AllocationsSucceed) (hstep : Step s l s') : Inv s' := by
  rcases step_cases h halloc hstep with hgoto | hboot | hresumed | hdelayed
  · obtain ⟨point, point', hcontrol, htodo, rfl, _⟩ := hgoto
    exact h.goto hcontrol htodo
  · obtain ⟨c, todo, hcontrol, _, rfl⟩ := hboot
    exact h.bootResume hcontrol
  · obtain ⟨a, clock, queue, task, hcontrol, _, rfl, hok, hpop, hview⟩ := hresumed
    exact h.resumed hcontrol hok hpop hview
  · obtain ⟨c, a, ms, clock, queue, task, hcontrol, _, hfresh, rfl, hok, hinsert, hview⟩ :=
      hdelayed
    exact h.delayed hcontrol hfresh hok hinsert hview

omit [DecidableEq Addr] in
theorem timers_eq_of_view (elements : Multiset Addr) {task task' : Addr → DelayTask Co}
    (hview : view task' = view task) :
    (elements.map fun a => (a, (task' a).expire, (task' a).coroutine)) =
      elements.map fun a => (a, (task a).expire, (task a).coroutine) :=
  Multiset.map_congr rfl fun a _ => by
    rw [expire_eq_of_view hview, coroutine_eq_of_view hview]

/-- One step neither loses nor repeats a timer. -/
theorem queuedTimers_step [DecidableEq Co] {s s' : State Addr Co} {l : Label Addr Co} (h : Inv s)
    (halloc : l.AllocationsSucceed) (hstep : Step s l s') :
    l.inserted + queuedTimers s = l.popped + queuedTimers s' := by
  rcases step_cases h halloc hstep with hgoto | hboot | hresumed | hdelayed
  · obtain ⟨_, _, _, _, rfl, hinserted, hpopped⟩ := hgoto
    rw [hinserted, hpopped]
    rfl
  · obtain ⟨c, todo, _, rfl, rfl⟩ := hboot
    rfl
  · obtain ⟨a, clock, queue, task, _, rfl, rfl, _, hpop, hview⟩ := hresumed
    change 0 + queuedTimers s = {(a, (s.task a).expire, (s.task a).coroutine)} +
      (elements queue).map fun a => (a, (task a).expire, (task a).coroutine)
    rw [zero_add, timers_eq_of_view _ hview, queuedTimers, hpop, Multiset.map_cons,
      Multiset.singleton_add]
  · obtain ⟨c, a, ms, clock, queue, task, _, rfl, hfresh, rfl, _, hinsert, hview⟩ := hdelayed
    change {(a, ms.signExtend 64 + clock, s.current)} + queuedTimers s = 0 +
      (elements queue).map fun a => (a, (task a).expire, (task a).coroutine)
    rw [zero_add, timers_eq_of_view _ hview, hinsert, Multiset.map_cons,
      Multiset.singleton_add, written, Function.update_self]
    refine congrArg _ (Multiset.map_congr rfl fun a' ha' => ?_)
    have hne : a' ≠ a := fun heq => hfresh (heq ▸ ha')
    simp [hne]

/-- The deadlines in the queue are not negative. -/
def DeadlinesInRange (s : State Addr Co) : Prop := ∀ a ∈ pending s, 0 ≤ (s.task a).expire.toInt

theorem expire_toInt {ms : BitVec 32} {clock : Long} (hlow : 0 ≤ ms.toInt + clock.toInt)
    (hhigh : ms.toInt + clock.toInt < 2 ^ 63) :
    (ms.signExtend 64 + clock).toInt = ms.toInt + clock.toInt := by
  rw [BitVec.toInt_add, BitVec.toInt_signExtend_of_le (by omega)]
  exact Int.bmod_eq_of_le (by omega) (by omega)

theorem DeadlinesInRange.step [DecidableEq Co] {s s' : State Addr Co} {l : Label Addr Co}
    (h : Inv s) (hrange : DeadlinesInRange s) (halloc : l.AllocationsSucceed)
    (hexpire : l.ExpireInRange) (hstep : Step s l s') : DeadlinesInRange s' := by
  rcases step_cases h halloc hstep with hgoto | hboot | hresumed | hdelayed
  · obtain ⟨_, _, _, _, rfl, _⟩ := hgoto
    exact hrange
  · obtain ⟨c, todo, _, rfl, rfl⟩ := hboot
    exact hrange
  · obtain ⟨a, clock, queue, task, _, rfl, rfl, _, hpop, hview⟩ := hresumed
    intro a' ha'
    change 0 ≤ (task a').expire.toInt
    rw [expire_eq_of_view hview]
    exact hrange a' (by rw [hpop]; exact Multiset.mem_cons_of_mem ha')
  · obtain ⟨c, a, ms, clock, queue, task, _, rfl, hfresh, rfl, _, hinsert, hview⟩ := hdelayed
    intro a' ha'
    have hmem : a' ∈ a ::ₘ pending s := by
      rw [← hinsert]
      exact ha'
    change 0 ≤ (task a').expire.toInt
    rw [expire_eq_of_view hview]
    rcases Multiset.mem_cons.mp hmem with rfl | hold
    · rw [written, Function.update_self, expire_toInt hexpire.1 hexpire.2]
      exact hexpire.1
    · have hne : a' ≠ a := fun heq => hfresh (heq ▸ hold)
      rw [written_of_ne s _ hne]
      exact hrange a' hold

theorem run_inv [DecidableEq Co] {start s : State Addr Co} {trace : List (Label Addr Co)}
    (hstart : Initial start) (hrun : (runtime Addr Co).Run start trace s)
    (hlabels : ∀ l ∈ trace, l.AllocationsSucceed) : Inv s :=
  hrun.preserves_of_labels (fun _ _ _ h halloc hstep => h.step halloc hstep) hlabels
    (inv_of_initial hstart)

theorem run_deadlines [DecidableEq Co] {start s : State Addr Co} {trace : List (Label Addr Co)}
    (hstart : Initial start) (hrun : (runtime Addr Co).Run start trace s)
    (hlabels : ∀ l ∈ trace, l.AllocationsSucceed ∧ l.ExpireInRange) :
    Inv s ∧ DeadlinesInRange s := by
  have hkeep : ∀ (s : State Addr Co) l s', Inv s ∧ DeadlinesInRange s →
      l.AllocationsSucceed ∧ l.ExpireInRange → Step s l s' → Inv s' ∧ DeadlinesInRange s' :=
    fun s l s' h hl hstep => ⟨h.1.step hl.1 hstep, h.2.step h.1 hl.1 hl.2 hstep⟩
  have hnone : DeadlinesInRange start := by
    obtain ⟨uninitialised, hqueue⟩ := hstart.queue
    intro a ha
    rw [pending, hqueue] at ha
    exact absurd ha (Multiset.notMem_zero a)
  exact hrun.preserves_of_labels hkeep hlabels ⟨inv_of_initial hstart, hnone⟩

omit [DecidableEq Addr] in
@[simp] theorem insertedTimers_append (trace : List (Label Addr Co)) (l : Label Addr Co) :
    insertedTimers (trace ++ [l]) = insertedTimers trace + l.inserted := by
  simp [insertedTimers]

omit [DecidableEq Addr] in
@[simp] theorem poppedTimers_append (trace : List (Label Addr Co)) (l : Label Addr Co) :
    poppedTimers (trace ++ [l]) = poppedTimers trace + l.popped := by
  simp [poppedTimers]

/-- Over a run, what was inserted is what was popped and what is still queued. -/
theorem run_timers [DecidableEq Co] {start s : State Addr Co} {trace : List (Label Addr Co)}
    (hstart : Initial start) (hrun : (runtime Addr Co).Run start trace s)
    (hlabels : ∀ l ∈ trace, l.AllocationsSucceed) :
    insertedTimers trace = poppedTimers trace + queuedTimers s := by
  induction hrun with
  | refl =>
      obtain ⟨uninitialised, hqueue⟩ := hstart.queue
      rw [queuedTimers, pending, hqueue]
      rfl
  | @tail t r trace l hrun hstep ih =>
      have hearlier : ∀ l ∈ trace, l.AllocationsSucceed :=
        fun l hl => hlabels l (List.mem_append_left _ hl)
      have hinv := run_inv hstart hrun hearlier
      have hone := queuedTimers_step hinv (hlabels l (by simp)) hstep
      calc insertedTimers (trace ++ [l])
          = poppedTimers trace + (l.inserted + queuedTimers t) := by
            rw [insertedTimers_append, ih hearlier, add_assoc, add_comm (queuedTimers t)]
        _ = poppedTimers (trace ++ [l]) + queuedTimers r := by
            rw [hone, poppedTimers_append, add_assoc]

/-- Two coroutines, 1 and 2, before main has resumed either. -/
def sampleStart : State Nat Nat where
  queue := pqueueInit 100 fun _ => 0
  task := fun _ => ⟨0, 0, 0⟩
  allocated := fun _ => false
  current := 0
  context := .start
  mainContext := .outer
  control := .main (.boot [1, 2])

theorem sampleStart_initial : Initial sampleStart :=
  ⟨⟨_, rfl⟩, fun _ => rfl, ⟨_, by decide, rfl⟩⟩

/-- Coroutine 1 sleeps until 3000, coroutine 2 until 1000, and the loop begins. -/
def sampleLooping : State Nat Nat :=
  let s := coroutineResume sampleStart (.boot [2]) 1
  let s := delay s 1 3000 0 (some 10) true
  let s := coroutineResume s (.boot []) 2
  let s := delay s 2 1000 0 (some 20) true
  { s with control := .main .inner }

def sampleTrace : List (Label Nat Nat) :=
  [.bootResume 1, .delayed 1 3000 0 (some 10) true, .bootResume 2,
    .delayed 2 1000 0 (some 20) true, .enterLoop, .usleep]

theorem sample_run : (runtime Nat Nat).Run sampleStart sampleTrace sampleLooping := by
  refine .head (.boot _ 1 [2] rfl) ?_
  refine .head (.delay _ 1 3000 0 (some 10) true rfl (by simp [coroutineResume, sampleStart])) ?_
  refine .head (.boot _ 2 [] rfl) ?_
  refine .head (.delay _ 2 1000 0 (some 20) true rfl ?_) ?_
  · simp [coroutineResume, delay, coroutineYield, sampleStart]
  refine .head (.enterLoop _ rfl) ?_
  refine .head (.usleep _ rfl) ?_
  exact .refl _

theorem sample_admitted :
    ∀ l ∈ sampleTrace, l.AllocationsSucceed ∧ l.ExpireInRange := by
  simp only [sampleTrace, List.forall_mem_cons]
  simp [Label.AllocationsSucceed, Label.ExpireInRange]

/-- The coroutine with the earlier deadline is resumed, though it was queued last. -/
theorem sample_resumes : (eventloopInner sampleLooping 1500).1 = .resumed 20 1000 2 1500 := by
  simp [eventloopInner, sampleLooping, sampleStart, delay, coroutineResume, coroutineYield,
    pqueueInit, pqueueSize, pqueuePeek, pqueueInsert, bubbleUp, bubbleUpLoop, parent, pqueuePop,
    percolateDown, percolateDownLoop, maxchild, left, PQueue.store, callbacks, cmpPri, getPri,
    setPos]

/-! ## The two guarantees -/

/-- A deadline that is not negative reads the same as an unsigned number. -/
theorem toNat_eq_toInt {x : Long} (h : 0 ≤ x.toInt) : (x.toNat : Int) = x.toInt := by
  have hlt := x.isLt
  rw [BitVec.toInt_eq_toNat_cond] at h ⊢
  split at h
  · rw [if_pos (by assumption)]
  · omega

/-- Deadline order: the loop resumes the coroutine of a task that is due and
that no pending task precedes, and it ends when no pending task is due. -/
theorem eventloop_deadline_order [DecidableEq Co] {start s s' : State Addr Co}
    {trace : List (Label Addr Co)} {l : Label Addr Co} (hstart : Initial start)
    (hrun : (runtime Addr Co).Run start trace s)
    (hlabels : ∀ l ∈ trace, l.AllocationsSucceed ∧ l.ExpireInRange)
    (hstep : (runtime Addr Co).step s l s') :
    (∀ a expire c clock, l = .resumed a expire c clock →
      s'.control = .coroutine c ∧ a ∈ pending s ∧ (s.task a).expire = expire ∧
        (s.task a).coroutine = c ∧ expire.toInt < clock.toInt ∧
        ∀ a' ∈ pending s, expire.toInt ≤ (s.task a').expire.toInt) ∧
    (∀ last, l = .loopEnd last → pending s' = 0 ∨
      ∃ clock, last = some clock ∧ ∀ a ∈ pending s', clock.toInt ≤ (s'.task a).expire.toInt) := by
  obtain ⟨hinv, hrange⟩ := run_deadlines hstart hrun hlabels
  have hleast : ∀ a, Earliest s a → ∀ a' ∈ pending s,
      (s.task a).expire.toInt ≤ (s.task a').expire.toInt := by
    intro a hearliest a' ha'
    have hle := hearliest.2 a' ha'
    have h := toNat_eq_toInt (hrange a hearliest.1)
    have h' := toNat_eq_toInt (hrange a' ha')
    omega
  cases hstep with
  | boot | enterLoop | usleep | delay => exact ⟨by simp, by simp⟩
  | inner clock hcontrol =>
      rcases eventloopInner_cases clock hinv.queue with
        ⟨hend, hempty⟩ | ⟨a, hend, hearliest, hnotdue⟩ | hresumed
      · rw [hend]
        exact ⟨by simp, fun _ _ => Or.inl hempty⟩
      · rw [hend]
        refine ⟨by simp, fun last hlast => Or.inr ⟨clock, by simpa using hlast.symm, ?_⟩⟩
        intro a' ha'
        have hbound : clock.toInt ≤ (s.task a).expire.toInt := by
          rw [BitVec.slt_iff_toInt_lt] at hnotdue
          omega
        exact hbound.trans (hleast a hearliest a' ha')
      · obtain ⟨a, queue, task, hresult, hearliest, hdue, _⟩ := hresumed
        rw [hresult]
        refine ⟨?_, by simp⟩
        intro a' expire c clock' hlabel
        obtain ⟨rfl, rfl, rfl, rfl⟩ := Label.resumed.inj hlabel
        refine ⟨?_, hearliest.1, rfl, rfl, BitVec.slt_iff_toInt_lt.mp hdue, hleast a hearliest⟩
        simp [coroutineResume, hinv.owner]

theorem eventloop_deadline_order_sample :
    (runtime Nat Nat).Run sampleStart sampleTrace sampleLooping ∧
      (eventloopInner sampleLooping 1500).2.control = .coroutine 2 ∧
      ∀ a ∈ pending sampleLooping, 1000 ≤ (sampleLooping.task a).expire.toInt := by
  have hstep : Step sampleLooping _ _ := .inner sampleLooping 1500 rfl
  obtain ⟨hcontrol, _, _, _, _, hleast⟩ :=
    (eventloop_deadline_order sampleStart_initial sample_run sample_admitted hstep).1
      20 1000 2 1500 sample_resumes
  exact ⟨sample_run, hcontrol, hleast⟩

/-- Every wake-up comes once: while main runs the queue names exactly the
sleeping coroutines, the running coroutine is not named, and every timer ever
inserted was either popped or is still queued. -/
theorem eventloop_no_lost_wakeup [DecidableEq Co] {start s : State Addr Co}
    {trace : List (Label Addr Co)} (hstart : Initial start)
    (hrun : (runtime Addr Co).Run start trace s)
    (hlabels : ∀ l ∈ trace, l.AllocationsSucceed) :
    (∀ point, s.control = .main point →
      (∀ c, Sleeping s c → (named s).count c = 1) ∧ ∀ c ∈ named s, Sleeping s c) ∧
    (∀ c, s.control = .coroutine c → c ∉ named s) ∧
    insertedTimers trace = poppedTimers trace + queuedTimers s := by
  have hinv := run_inv hstart hrun hlabels
  refine ⟨fun point hcontrol => ?_, fun c hc => (hinv.running c hc).2.1,
    run_timers hstart hrun hlabels⟩
  have hmain : ∀ c, s.control ≠ .coroutine c := by simp [hcontrol]
  constructor
  · rintro c ⟨slot, hslot⟩
    have hown := hinv.owner slot
    rw [hslot] at hown
    change c = slot at hown
    subst hown
    exact Multiset.count_eq_one_of_mem hinv.named_once ((hinv.sleeping c (hmain c)).mpr hslot)
  · intro c hc
    exact ⟨c, (hinv.sleeping c (hmain c)).mp hc⟩

theorem eventloop_no_lost_wakeup_sample :
    (runtime Nat Nat).Run sampleStart sampleTrace sampleLooping ∧
      (∀ c, Sleeping sampleLooping c → (named sampleLooping).count c = 1) ∧
      insertedTimers sampleTrace = poppedTimers sampleTrace + queuedTimers sampleLooping := by
  obtain ⟨hmain, _, htimers⟩ := eventloop_no_lost_wakeup sampleStart_initial sample_run
    fun l hl => (sample_admitted l hl).1
  exact ⟨sample_run, (hmain .inner rfl).1, htimers⟩

end

end CsInternal.Cpu.EventLoop
