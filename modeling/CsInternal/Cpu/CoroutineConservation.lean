import CsInternal.Cpu.AllocationFailure

/-!
# Coroutines and tasks under the event loop

Every coroutine that main was given waits for its first resume, sleeps with one
task in the queue, or runs; none is lost or doubled.  The same holds for the memory
of the tasks, so that the queue of `pqueue_init(100, ..)` never grows for a hundred
coroutines.
-/

namespace CsInternal.Cpu.EventLoop

open CsInternal.Library CsInternal.Cpu.PriorityQueue

section

variable {Addr Co : Type} [DecidableEq Addr]

/-- The coroutine in control. -/
def running (s : State Addr Co) : Multiset Co :=
  match s.control with
  | .coroutine c => {c}
  | _ => 0

/-- The coroutines wherever they are. -/
def places (s : State Addr Co) : Multiset Co :=
  (mainPoint s).todo + (named s + running s)

/-- Nothing was lost since `start`, neither a coroutine nor memory. -/
structure Conserves (start s : State Addr Co) : Prop where
  inv : Inv s
  places_eq : places s = places start
  allocated_iff : ∀ a, s.allocated a = true ↔ start.allocated a = true ∨ a ∈ pending s
  fresh : ∀ a ∈ pending s, start.allocated a = false

theorem conserves_of_initial {start : State Addr Co} (hstart : Initial start) :
    Conserves start start := by
  obtain ⟨uninitialised, hqueue⟩ := hstart.queue
  have hempty : ∀ a, a ∉ pending start := by
    intro a
    rw [pending, hqueue]
    exact Multiset.notMem_zero a
  refine ⟨inv_of_initial hstart, rfl, fun a => ?_, fun a ha => absurd ha (hempty a)⟩
  exact ⟨Or.inl, fun h => h.resolve_right (hempty a)⟩

omit [DecidableEq Addr] in
theorem places_of_main {s : State Addr Co} {point : MainPoint Co} (h : s.control = .main point) :
    places s = point.todo + named s := by
  rw [places, mainPoint, running, h]
  exact congrArg _ (Multiset.add_zero _)

omit [DecidableEq Addr] in
theorem places_of_coroutine {s : State Addr Co} {c : Co} (h : s.control = .coroutine c) :
    places s = s.mainContext.todo + (c ::ₘ named s) := by
  rw [places, mainPoint, running, h]
  exact congrArg _ (Multiset.add_comm _ _)

variable [DecidableEq Co] {start s s' : State Addr Co} {l : Label Addr Co}

/-- A step that makes no failing allocation is one in which none would fail. -/
theorem exists_granted (hserved : Served s l) (hstep : Step s l s') :
    ∃ l', l'.AllocationsSucceed ∧ Step s l' s' := by
  cases hstep with
  | delay c ms clock malloc realloc hcontrol hmalloc =>
      obtain ⟨hsome, hrealloc⟩ := hserved
      have hgranted : delay s c ms clock malloc realloc = delay s c ms clock malloc true := by
        by_cases hfull : s.queue.avail ≤ s.queue.size
        · rw [hrealloc hfull]
        · exact delay_of_room c ms clock malloc realloc (Nat.lt_of_not_le hfull)
      rw [hgranted]
      exact ⟨.delayed s.current ms clock malloc true, ⟨hsome, rfl⟩,
        .delay s c ms clock malloc true hcontrol hmalloc⟩
  | boot c todo hcontrol => exact ⟨.bootResume c, trivial, .boot s c todo hcontrol⟩
  | enterLoop hcontrol => exact ⟨.enterLoop, trivial, .enterLoop s hcontrol⟩
  | usleep hcontrol => exact ⟨.usleep, trivial, .usleep s hcontrol⟩
  | inner clock hcontrol =>
      exact ⟨_, (eventloopInner_allocates_nothing s s clock).1, .inner s clock hcontrol⟩

/-- `malloc` gives memory that is free. -/
theorem allocated_of_delayed {c co : Co} {ms : BitVec 32} {clock : Long} {a : Addr}
    {realloc : Bool} (hcontrol : s.control = .coroutine c)
    (hstep : Step s (.delayed co ms clock (some a) realloc) s') : s.allocated a = false := by
  generalize hlabel : Label.delayed co ms clock (some a) realloc = l at hstep
  cases hstep with
  | delay _ _ _ _ _ _ hmalloc =>
      cases hlabel
      exact hmalloc a rfl
  | boot _ _ hmain => cases hlabel
  | enterLoop hmain => cases hlabel
  | usleep hmain => cases hlabel
  | inner _ hmain => cases hcontrol.symm.trans hmain

omit [DecidableEq Co] in
/-- Main starts a coroutine, or goes on without one. -/
theorem Conserves.same_memory (h : Conserves start s) (hinv : Inv s')
    (hplaces : places s' = places s) (hpending : pending s' = pending s)
    (hallocated : s'.allocated = s.allocated) : Conserves start s' where
  inv := hinv
  places_eq := hplaces.trans h.places_eq
  allocated_iff a := by rw [hallocated, hpending]; exact h.allocated_iff a
  fresh a ha := h.fresh a (hpending ▸ ha)

theorem Conserves.step (h : Conserves start s) (hserved : Served s l) (hstep : Step s l s') :
    Conserves start s' := by
  have hinv := h.inv.step_of_served hserved hstep
  obtain ⟨l', hsucceeds, hgranted⟩ := exists_granted hserved hstep
  obtain hgoto | hboot | hresumed | hdelayed := step_cases h.inv hsucceeds hgranted
  · obtain ⟨point, point', hcontrol, htodo, rfl, -⟩ := hgoto
    refine h.same_memory hinv ?_ rfl rfl
    rw [places_of_main hcontrol, places_of_main rfl, htodo]
    rfl
  · obtain ⟨c, todo, hcontrol, -, rfl⟩ := hboot
    refine h.same_memory hinv ?_ rfl rfl
    have hrunning : (coroutineResume s (.boot todo) c).control = .coroutine c :=
      congrArg Control.coroutine (h.inv.owner c)
    rw [places_of_coroutine hrunning, places_of_main hcontrol]
    change (todo : Multiset Co) + (c ::ₘ named s) = ((c :: todo : List Co) : Multiset Co) + named s
    rw [← Multiset.cons_coe, Multiset.cons_add, Multiset.add_cons]
  · obtain ⟨a, clock, queue, task, hcontrol, -, rfl, -, hpop, hview⟩ := hresumed
    have hnodup := h.inv.distinct
    rw [hpop, Multiset.nodup_cons] at hnodup
    have hkept : ∀ a' ∈ elements queue, a' ∈ pending s := by
      intro a' ha'
      rw [hpop]
      exact Multiset.mem_cons_of_mem ha'
    refine ⟨hinv, ?_, fun a' => ?_, fun a' ha' => h.fresh a' (hkept a' ha')⟩
    · have hnamed : named s =
          (s.task a).coroutine ::ₘ (elements queue).map fun a => (task a).coroutine := by
        rw [named, hpop, Multiset.map_cons, named_eq_of_view _ hview]
      rw [← h.places_eq, places_of_main hcontrol, hnamed,
        places_of_coroutine (congrArg Control.coroutine (h.inv.owner _))]
      rfl
    · change Function.update s.allocated a false a' = true ↔ _ ∨ a' ∈ elements queue
      by_cases ha : a' = a
      · rw [ha, Function.update_self, h.fresh a (hpop ▸ Multiset.mem_cons_self a _)]
        constructor
        · intro hfalse
          cases hfalse
        · rintro (hfalse | hmem)
          · cases hfalse
          · exact absurd hmem hnodup.1
      · rw [Function.update_of_ne ha, h.allocated_iff, hpop, Multiset.mem_cons, or_iff_right ha]
  · obtain ⟨c, a, ms, clock, queue, task, hcontrol, rfl, hfresh, rfl, -, hinsert, hview⟩ :=
      hdelayed
    have hfree := allocated_of_delayed hcontrol hgranted
    have hunused : start.allocated a = false := by
      rw [Bool.eq_false_iff]
      intro hused
      exact absurd ((h.allocated_iff a).mpr (.inl hused)) (Bool.eq_false_iff.mp hfree)
    obtain ⟨hcurrent, -⟩ := h.inv.running c hcontrol
    refine ⟨hinv, ?_, fun a' => ?_, fun a' ha' => ?_⟩
    · rw [← h.places_eq, places_of_coroutine hcontrol, places_of_main rfl, named]
      change _ + (elements queue).map (fun a => (task a).coroutine) = _
      rw [named_eq_of_view _ hview, hinsert, Multiset.map_cons, written, Function.update_self,
        hcurrent]
      refine congrArg _ (congrArg _ (Multiset.map_congr rfl fun a' ha' => ?_))
      have hne : a' ≠ a := fun heq => hfresh (heq ▸ ha')
      rw [Function.update_of_ne hne]
    · change Function.update s.allocated a true a' = true ↔ _ ∨ a' ∈ elements queue
      rw [hinsert, Multiset.mem_cons]
      by_cases ha : a' = a
      · rw [ha, Function.update_self]
        exact ⟨fun _ => .inr (.inl rfl), fun _ => rfl⟩
      · rw [Function.update_of_ne ha, h.allocated_iff, or_iff_right ha]
    · change a' ∈ elements queue at ha'
      rw [hinsert, Multiset.mem_cons] at ha'
      obtain rfl | hold := ha'
      · exact hunused
      · exact h.fresh a' hold

theorem conserves_of_run (hstart : Initial start) {trace : List (Label Addr Co)}
    (hrun : ((runtime Addr Co).restrict Served).Run start trace s) : Conserves start s :=
  hrun.preserves (fun _ _ _ h hstep => h.step hstep.2 hstep.1) (conserves_of_initial hstart)

/--
Along every run whose allocations succeed where they are made, each coroutine of
main is in exactly one place: waiting for its first resume, named by one task in the
queue, or running.  Exactly the tasks in the queue have been allocated and not freed.
-/
theorem coroutines_conserved (hstart : Initial start) {todo : List Co}
    (hcontrol : start.control = .main (.boot todo)) {trace : List (Label Addr Co)}
    (hrun : ((runtime Addr Co).restrict Served).Run start trace s) :
    (mainPoint s).todo + (named s + running s) = (todo : Multiset Co) ∧ (pending s).Nodup ∧
      (∀ a, s.allocated a = true ↔ start.allocated a = true ∨ a ∈ pending s) ∧
      ∀ a ∈ pending s, start.allocated a = false := by
  have h := conserves_of_run hstart hrun
  have hplaces : places s = (todo : Multiset Co) := by
    obtain ⟨uninitialised, hqueue⟩ := hstart.queue
    rw [h.places_eq, places_of_main hcontrol, named, pending, hqueue]
    exact Multiset.add_zero _
  exact ⟨hplaces, h.inv.distinct, h.allocated_iff, h.fresh⟩

/-! ## A hundred coroutines -/

omit [DecidableEq Addr] [DecidableEq Co] in
theorem percolateDownLoop_avail {M : Type} (cb : Callbacks M Addr) (pri : Pri) (q : PQueue Addr)
    (m : M) (i : Nat) : (percolateDownLoop cb pri q m i).2.1.avail = q.avail := by
  fun_induction percolateDownLoop cb pri q m i <;> simp_all [PQueue.store]

omit [DecidableEq Addr] [DecidableEq Co] in
theorem pqueuePop_avail {M : Type} (cb : Callbacks M Addr) (q : PQueue Addr) (m : M) :
    (pqueuePop cb q m).2.1.avail = q.avail := by
  rw [pqueuePop]
  split
  · rfl
  · exact percolateDownLoop_avail cb _ _ m 1

omit [DecidableEq Co] in
theorem eventloopInner_avail (s : State Addr Co) (clock : Long) :
    (eventloopInner s clock).2.queue.avail = s.queue.avail := by
  rw [eventloopInner]
  split
  · split
    · rfl
    · split
      · have havail := pqueuePop_avail (callbacks Addr Co) s.queue s.task
        split
        · rename_i hpop
          rw [hpop] at havail
          exact havail
        · rename_i hpop
          rw [hpop] at havail
          exact havail
      · rfl
  · rfl

/-- Every `malloc` succeeds. -/
def MallocSucceeds (_ : State Addr Co) : Label Addr Co → Prop
  | .delayed _ _ _ malloc _ => malloc ≠ none
  | _ => True

/-- Whoever runs finds room in the queue. -/
def Roomy (s : State Addr Co) : Prop :=
  ∀ c, s.control = .coroutine c → s.queue.size < s.queue.avail

theorem step_avail (hroomy : Roomy s) (hstep : Step s l s') :
    s'.queue.avail = s.queue.avail := by
  cases hstep with
  | delay c ms clock malloc realloc hcontrol hmalloc =>
      have hnot : ¬ s.queue.avail ≤ s.queue.size := Nat.not_le_of_lt (hroomy c hcontrol)
      cases malloc with
      | none => rfl
      | some a => simp [delay, pqueueInsert, hnot, bubbleUp, coroutineYield, PQueue.store,
          bubbleUpLoop_room]
  | boot c todo hcontrol => rfl
  | enterLoop hcontrol => rfl
  | usleep hcontrol => rfl
  | inner clock hcontrol => exact eventloopInner_avail s clock

omit [DecidableEq Co] in
/-- With at most a hundred coroutines, the running one finds room for its task. -/
theorem Conserves.roomy (h : Conserves start s) (hcard : (places start).card ≤ 100)
    (havail : s.queue.avail = 101) : Roomy s := by
  intro c hcontrol
  have hpos := h.inv.queue.nonempty
  have hplaces := congrArg Multiset.card (places_of_coroutine hcontrol)
  rw [h.places_eq, Multiset.card_add, Multiset.card_cons, named, Multiset.card_map, pending,
    elements, Heap.contents, Multiset.card_map, Finset.card_val, Nat.card_Ico] at hplaces
  omega

/--
The queue of `pqueue_init(100, ..)` does for a hundred coroutines: whatever `realloc`
would answer, it is never called, and nobody sleeps without a timer as long as
`malloc` succeeds.
-/
theorem hundred_coroutines (hstart : Initial start) {todo : List Co}
    (hcontrol : start.control = .main (.boot todo)) (hlength : todo.length ≤ 100)
    {trace : List (Label Addr Co)}
    (hrun : ((runtime Addr Co).restrict MallocSucceeds).Run start trace s) :
    Timed s ∧ Roomy s ∧ s.queue.avail = 101 := by
  have hcard : (places start).card ≤ 100 := by
    obtain ⟨uninitialised, hqueue⟩ := hstart.queue
    rw [places_of_main hcontrol, named, pending, hqueue, Multiset.card_add]
    exact hlength
  have hinit : Conserves start start ∧ start.queue.avail = 101 := by
    obtain ⟨uninitialised, hqueue⟩ := hstart.queue
    exact ⟨conserves_of_initial hstart, by rw [hqueue]; rfl⟩
  have hkeep : ∀ (s : State Addr Co) l s', Conserves start s ∧ s.queue.avail = 101 →
      ((runtime Addr Co).restrict MallocSucceeds).step s l s' →
      Conserves start s' ∧ s'.queue.avail = 101 := by
    rintro s l s' ⟨h, havail⟩ ⟨hstep, hmalloc⟩
    have hroomy := h.roomy hcard havail
    refine ⟨h.step ?_ hstep, (step_avail hroomy hstep).trans havail⟩
    cases hstep with
    | delay c ms clock malloc realloc hcontrol _ =>
        exact ⟨hmalloc, fun hfull => absurd (hroomy c hcontrol) (Nat.not_lt_of_le hfull)⟩
    | boot | enterLoop | usleep => trivial
    | inner clock _ => exact (eventloopInner_allocates_nothing s s clock).2
  obtain ⟨h, havail⟩ := hrun.preserves hkeep hinit
  exact ⟨h.inv.timed, h.roomy hcard havail, havail⟩

end

/-- The loop has popped and freed the task of coroutine 2 and resumed it. -/
def sampleResumed : State Nat Nat := (eventloopInner sampleLooping 1500).2

theorem sampleResumed_run : ((runtime Nat Nat).restrict Served).Run sampleStart
    (sampleTrace ++ [.resumed 20 1000 2 1500]) sampleResumed := by
  have hstep : Step sampleLooping (.resumed 20 1000 2 1500) sampleResumed := by
    rw [← sample_resumes]
    exact .inner sampleLooping 1500 rfl
  refine (sample_run.tail hstep).restrict fun l hl s => ?_
  obtain hl | hl := List.mem_append.mp hl
  · have hsucceed := (sample_admitted l hl).1
    cases l with
    | delayed slot ms clock malloc realloc => exact ⟨hsucceed.1, fun _ => hsucceed.2⟩
    | _ => trivial
  · cases List.mem_singleton.mp hl
    trivial

/-- Coroutine 1 is named by the one task that is left, and coroutine 2 runs. -/
theorem coroutines_conserved_sample :
    named sampleResumed + running sampleResumed = {1, 2} ∧
      ∀ a, sampleResumed.allocated a = true ↔ a = 10 := by
  have htodo : mainPoint sampleResumed = .inner := by decide +kernel
  have hpending : pending sampleResumed = {10} := by decide +kernel
  obtain ⟨hplaces, -, hallocated, -⟩ :=
    coroutines_conserved sampleStart_initial rfl sampleResumed_run
  rw [htodo] at hplaces
  refine ⟨(Multiset.zero_add _).symm.trans hplaces, fun a => ?_⟩
  rw [hallocated, hpending, Multiset.mem_singleton, or_iff_right]
  exact Bool.false_ne_true

/-- Coroutine 1 goes to sleep, with a `realloc` that would fail. -/
def sampleAsleep : State Nat Nat := delay sampleRunning 1 3000 0 (some 10) false

def sampleAsleepTrace : List (Label Nat Nat) :=
  [.bootResume 1, .delayed 1 3000 0 (some 10) false]

theorem sampleAsleep_step :
    Step sampleRunning (.delayed 1 3000 0 (some 10) false) sampleAsleep :=
  .delay sampleRunning 1 3000 0 (some 10) false rfl fun _ _ => rfl

theorem hundred_coroutines_sample : Timed sampleAsleep ∧ sampleAsleep.queue.avail = 101 := by
  have hrun : ((runtime Nat Nat).restrict MallocSucceeds).Run sampleStart sampleAsleepTrace
      sampleAsleep :=
    .head ⟨.boot sampleStart 1 [2] rfl, trivial⟩ (.single ⟨sampleAsleep_step,
      Option.some_ne_none _⟩)
  obtain ⟨htimed, -, havail⟩ := hundred_coroutines sampleStart_initial rfl (by decide) hrun
  exact ⟨htimed, havail⟩

end CsInternal.Cpu.EventLoop
